import AliMiddleware.Lib.Pool
import Mathlib.Data.Fintype.EquivFin

/-!
# Lib — PoolInvariant

The representation invariant of a pool and what its sections do in it.  `Holds cfg p lent xs`
says that the buffer holds the elements `xs`, that `free_list` and the lent objects `lent`
together are exactly these, each once, that an element is marked free exactly when it is in
`free_list`, and that there are at most `max_size` of them.

`doTryBorrowOne_outcome` is the inversion of a borrowing section: it hands out the front of
`free_list`; or it constructs an object and hands that out; or the constructor throws and nothing
has changed; or the pool is full and everything is lent.  `releaseSection_spec` is the releasing
section.  Neither is ever undefined in such a state.
-/

namespace AliMiddleware.Pool

open TraceableList

variable {Obj F : Type} {cfg : PoolConfig}

/-- The representation invariant, at the objects that are lent. -/
structure Holds (cfg : PoolConfig) (p : Pool Obj F) (lent : List Addr)
    (xs : Elems Obj Bool) : Prop where
  rep : Rep p.buffer xs
  share : (p.freeList ++ lent).Perm (addrs xs)
  mark : ∀ a d e, (a, d, e) ∈ xs → (e = true ↔ a ∈ p.freeList)
  bound : xs.length ≤ cfg.maxSize

theorem holds_fresh (cfg : PoolConfig) (flag : F) : Holds cfg (fresh flag : Pool Obj F) [] [] where
  rep := rep_empty
  share := List.Perm.refl _
  mark := by simp
  bound := Nat.zero_le _

theorem Holds.nodup {p : Pool Obj F} {lent : List Addr} {xs : Elems Obj Bool}
    (h : Holds cfg p lent xs) : (p.freeList ++ lent).Nodup :=
  h.share.nodup_iff.mpr h.rep.nodup

theorem Holds.length {p : Pool Obj F} {lent : List Addr} {xs : Elems Obj Bool}
    (h : Holds cfg p lent xs) : p.freeList.length + lent.length = xs.length := by
  rw [← List.length_append, h.share.length_eq, length_addrs]

/-- There is always room for a new node. -/
theorem Holds.exists_fresh {p : Pool Obj F} {lent : List Addr} {xs : Elems Obj Bool}
    (h : Holds cfg p lent xs) : ∃ b, p.buffer.heap b = none := by
  obtain ⟨b, hb⟩ := Infinite.exists_notMem_finset (addrs xs).toFinset
  refine ⟨b, ?_⟩
  by_contra hc
  exact hb (List.mem_toFinset.mpr (h.rep.live b hc))

/-! ### The pieces of a section -/

theorem onBuffer_done {α : Type} {m : ListM Obj Bool α} {p : Pool Obj F} {a : α}
    {l : TraceableList Obj Bool} (h : m.run p.buffer = .done a l) :
    (onBuffer m : PoolM Obj F α).run p = .done a { p with buffer := l } := by
  simp [onBuffer, h]

theorem lastObj_spec {p : Pool Obj F} {xs : Elems Obj Bool} {x : Addr × Obj × Bool}
    (h : Rep p.buffer (xs ++ [x])) : (lastObj : PoolM Obj F _).run p = .done (some x.1) p := by
  obtain ⟨a, d, e⟩ := x
  have hn := h.node
  refine onBuffer_done ?_
  rw [Exec.run_bind_done rfl, Exec.run_bind_done (decr_end h)]
  simp [load, hn]

/-- A new object is at the end of `buffer` and of `free_list`, and free. -/
theorem addObj_spec {p : Pool Obj F} {xs : Elems Obj Bool} {new : NewObj Obj} {obj : Obj}
    (h : Rep p.buffer xs) (ha : p.buffer.heap new.addr = none) (ho : new.obj = some obj) :
    ∃ l, (addObj new).run p =
        .done () { p with buffer := l, freeList := p.freeList ++ [new.addr] } ∧
      Rep l (xs ++ [(new.addr, obj, true)]) := by
  obtain ⟨l, hl, hr⟩ := pushBack_spec h ha obj true
  have hn : (newObjToBuffer new : PoolM Obj F Unit).run p = .done () { p with buffer := l } := by
    rw [newObjToBuffer, ho]
    exact onBuffer_done hl
  refine ⟨l, ?_, hr⟩
  rw [addObj, Exec.run_bind_done hn, Exec.run_bind_done (lastObj_spec hr)]
  rfl

/-- No new object goes where one is. -/
theorem addObj_live {p : Pool Obj F} {new : NewObj Obj} (ha : p.buffer.heap new.addr ≠ none)
    (ho : new.obj ≠ none) : (addObj new).run p = .undefined := by
  obtain ⟨obj, ho⟩ := Option.ne_none_iff_exists'.mp ho
  obtain ⟨n, ha⟩ := Option.ne_none_iff_exists'.mp ha
  simp [addObj, newObjToBuffer, ho, onBuffer, pushBack, pushOne, TraceableList.new, ha]

theorem addObj_throws {p : Pool Obj F} {new : NewObj Obj} (ho : new.obj = none) :
    (addObj new).run p = .threw .construction p := by
  simp [addObj, newObjToBuffer, ho]

/-- An iterator from a pointer to an object. -/
theorem pointer_spec (cfg : PoolConfig) {p : Pool Obj F} {xs : Elems Obj Bool} {a : Addr}
    (h : Rep p.buffer xs) (ha : a ∈ addrs xs) :
    (onBuffer (iteratorOf cfg.foreign (some a)) : PoolM Obj F Iterator).run p =
      .done ⟨some a, none⟩ p :=
  onBuffer_done (iteratorOf_live h ha cfg.foreign)

/-- Setting the free flag of an object. -/
theorem mark_spec {p : Pool Obj F} {ys zs : Elems Obj Bool} {a : Addr} {d : Obj} {e : Bool}
    (h : Rep p.buffer (ys ++ (a, d, e) :: zs)) (e' : Bool) :
    ∃ l, (onBuffer (setExtraInfo ⟨some a, none⟩ e') : PoolM Obj F Unit).run p =
        .done () { p with buffer := l } ∧ Rep l (ys ++ (a, d, e') :: zs) := by
  obtain ⟨l, hl, hr⟩ := setExtraInfo_spec h none e'
  exact ⟨l, onBuffer_done hl, hr⟩

/-- Moving the object `a` between `free_list` and the lent ones, with its flag. -/
theorem Holds.move {p : Pool Obj F} {lent lent' free' : List Addr} {ys zs : Elems Obj Bool}
    {a : Addr} {d : Obj} {e e' : Bool} {l : TraceableList Obj Bool} {flag' : F}
    (h : Holds cfg p lent (ys ++ (a, d, e) :: zs)) (hl : Rep l (ys ++ (a, d, e') :: zs))
    (hperm : (free' ++ lent').Perm (p.freeList ++ lent))
    (hother : ∀ b, b ≠ a → (b ∈ free' ↔ b ∈ p.freeList)) (hself : e' = true ↔ a ∈ free') :
    Holds cfg ⟨l, free', flag'⟩ lent' (ys ++ (a, d, e') :: zs) where
  rep := hl
  share := hperm.trans (by simpa using h.share)
  mark := by
    have hnd := hl.nodup
    rw [addrs_append, addrs_cons, List.perm_middle.nodup_iff, List.nodup_cons] at hnd
    have hne : ∀ b d' x, (b, d', x) ∈ ys ++ zs → b ≠ a := fun b d' x hx hc =>
      hnd.1 (by simpa [hc] using mem_addrs hx)
    intro b d' x hx
    have hx : (b, d', x) = (a, d, e') ∨ (b, d', x) ∈ ys ++ zs := by
      simp only [List.mem_append, List.mem_cons] at hx ⊢
      tauto
    rcases hx with he | hx
    · cases he
      exact hself
    · rw [hother b (hne b d' x hx)]
      refine h.mark b d' x ?_
      simp only [List.mem_append, List.mem_cons] at hx ⊢
      tauto
  bound := by simpa using h.bound

/-- A new object, free, at the end of `buffer` and of `free_list`. -/
theorem Holds.add {p : Pool Obj F} {lent : List Addr} {xs : Elems Obj Bool} {a : Addr} {d : Obj}
    {l : TraceableList Obj Bool} (h : Holds cfg p lent xs) (hl : Rep l (xs ++ [(a, d, true)]))
    (ha : a ∉ addrs xs) (hroom : xs.length < cfg.maxSize) :
    Holds cfg ⟨l, p.freeList ++ [a], p.flag⟩ lent (xs ++ [(a, d, true)]) where
  rep := hl
  share := by
    have hmove : (p.freeList ++ [a] ++ lent).Perm (p.freeList ++ lent ++ [a]) := by
      rw [List.append_assoc, List.append_assoc]
      exact (List.perm_append_comm).append_left _
    exact hmove.trans (by simpa using h.share.append_right [a])
  mark := by
    intro b d' e hx
    simp only [List.mem_append, List.mem_singleton, Prod.mk.injEq] at hx
    rcases hx with hx | ⟨rfl, rfl, rfl⟩
    · have hne : b ≠ a := fun hc => ha (hc ▸ mem_addrs hx)
      simp [h.mark b d' e hx, hne]
    · simp
  bound := by simpa using Nat.succ_le_of_lt hroom

/-- What is lent, when a holder gives back an object. -/
theorem lent_perm_erase {Tid : Type} [DecidableEq Tid] {lent : List (Tid × Addr)} {t : Tid}
    {a : Addr} (h : (t, a) ∈ lent) :
    (lent.map Prod.snd).Perm (a :: (lent.erase (t, a)).map Prod.snd) :=
  (List.perm_cons_erase h).map Prod.snd

theorem mem_split {xs : Elems Obj Bool} {a : Addr} (h : a ∈ addrs xs) :
    ∃ ys d e zs, xs = ys ++ (a, d, e) :: zs := by
  obtain ⟨⟨b, d, e⟩, hx, rfl⟩ := List.mem_map.mp h
  obtain ⟨ys, zs, rfl⟩ := List.append_of_mem hx
  exact ⟨ys, d, e, zs, rfl⟩

/-! ### The sections -/

/-- What a borrowing section does in a state that satisfies the invariant. -/
inductive BorrowOutcome (cfg : PoolConfig) (onBorrow : F → F) (new : NewObj Obj)
    (p : Pool Obj F) (lent : List Addr) (xs : Elems Obj Bool) :
    Outcome (Pool Obj F) Exn (Option Addr) → Prop where
  /-- the front of `free_list` is handed out -/
  | reused {a : Addr} {rest : List Addr} {p' : Pool Obj F} {xs' : Elems Obj Bool}
      (free : p.freeList = a :: rest) (free' : p'.freeList = rest)
      (flag : p'.flag = onBorrow p.flag) (same : addrs xs' = addrs xs)
      (holds : Holds cfg p' (a :: lent) xs') : BorrowOutcome cfg onBorrow new p lent xs
        (.done (some a) p')
  /-- a new object is handed out -/
  | created {p' : Pool Obj F} {xs' : Elems Obj Bool}
      (free : p.freeList = []) (room : xs.length < cfg.maxSize) (free' : p'.freeList = [])
      (flag : p'.flag = onBorrow p.flag) (more : addrs xs' = addrs xs ++ [new.addr])
      (holds : Holds cfg p' (new.addr :: lent) xs') : BorrowOutcome cfg onBorrow new p lent xs
        (.done (some new.addr) p')
  /-- the constructor throws -/
  | failed (free : p.freeList = []) (room : xs.length < cfg.maxSize) (obj : new.obj = none) :
      BorrowOutcome cfg onBorrow new p lent xs (.threw .construction p)
  /-- there is nothing to lend -/
  | full (free : p.freeList = []) (full : xs.length = cfg.maxSize) :
      BorrowOutcome cfg onBorrow new p lent xs (.done none p)

/-- A pass over `borrow_again` that finds an object. -/
theorem borrowAgain_reuse {p : Pool Obj F} {lent : List Addr} {xs : Elems Obj Bool} {a : Addr}
    {rest : List Addr} (h : Holds cfg p lent xs) (hf : p.freeList = a :: rest)
    (onBorrow : F → F) (new : NewObj Obj) (fuel : ℕ) :
    ∃ p' xs', (borrowAgain cfg onBorrow new (fuel + 1)).run p = .done (some a) p' ∧
      p'.freeList = rest ∧ p'.flag = onBorrow p.flag ∧ addrs xs' = addrs xs ∧
      Holds cfg p' (a :: lent) xs' := by
  have ha : a ∈ addrs xs := h.share.subset (by simp [hf])
  have hrest : a ∉ rest := by
    have hnd := h.nodup
    simp only [hf, List.cons_append, List.nodup_cons, List.mem_append, not_or] at hnd
    exact hnd.1.1
  obtain ⟨ys, d, e, zs, rfl⟩ := mem_split ha
  obtain ⟨l, hl, hr⟩ := mark_spec (p := { p with freeList := rest }) h.rep false
  refine ⟨⟨l, rest, onBorrow p.flag⟩, ys ++ (a, d, false) :: zs, ?_, rfl, rfl, by simp,
    h.move hr ?_ (fun b hb => by simp [hf, hb]) (by simp [hrest])⟩
  · have hp := pointer_spec cfg (p := { p with freeList := rest }) h.rep ha
    rw [borrowAgain, Exec.run_bind_done rfl]
    simp only [hf]
    rw [Exec.run_bind_done rfl, Exec.run_bind_done hp, Exec.run_bind_done hl]
    rfl
  · rw [hf]
    exact List.perm_middle

/-- **The borrowing section.** -/
theorem doTryBorrowOne_outcome {p : Pool Obj F} {lent : List Addr} {xs : Elems Obj Bool}
    (h : Holds cfg p lent xs) (onBorrow : F → F) {new : NewObj Obj}
    (hnew : p.buffer.heap new.addr = none) :
    BorrowOutcome cfg onBorrow new p lent xs ((doTryBorrowOne cfg onBorrow new).run p) := by
  cases hf : p.freeList with
  | cons a rest =>
      obtain ⟨p', xs', hrun, h₁, h₂, h₃, h₄⟩ := borrowAgain_reuse h hf onBorrow new 1
      rw [doTryBorrowOne, hrun]
      exact .reused hf h₁ h₂ h₃ h₄
  | nil =>
      have hsize : (onBuffer size : PoolM Obj F ℕ).run p = .done xs.length p := by
        refine onBuffer_done ?_
        simp [size, h.rep.size]
      rw [doTryBorrowOne, borrowAgain, Exec.run_bind_done rfl]
      simp only [hf]
      rw [Exec.run_bind_done hsize]
      by_cases hroom : xs.length < cfg.maxSize
      · rw [if_pos hroom]
        cases ho : new.obj with
        | none =>
            rw [Exec.run_bind, addObj_throws ho]
            exact .failed hf hroom ho
        | some obj =>
            obtain ⟨l, hl, hr⟩ := addObj_spec h.rep hnew ho
            have hn : new.addr ∉ addrs xs := h.rep.not_mem hnew
            -- the second pass finds the new object
            have h₁ := h.add hr hn hroom
            have hfront : p.freeList ++ [new.addr] = new.addr :: [] := by simp [hf]
            obtain ⟨p', xs', hrun, hf', hg, hs, hh⟩ := borrowAgain_reuse h₁ hfront onBorrow new 0
            rw [Exec.run_bind_done hl, hrun]
            exact .created hf hroom hf' hg (by simpa using hs) hh
      · rw [if_neg hroom]
        exact .full hf (Nat.le_antisymm h.bound (Nat.not_lt.mp hroom))

/-- **The releasing section**, of an object that is lent. -/
theorem releaseSection_spec {p : Pool Obj F} {lent lent' : List Addr} {xs : Elems Obj Bool}
    {a : Addr} (h : Holds cfg p lent xs) (hl : lent.Perm (a :: lent')) (onRelease : F → F) :
    ∃ p' xs', (releaseSection cfg onRelease (some a)).run p = .done () p' ∧
      p'.freeList = a :: p.freeList ∧ p'.flag = onRelease p.flag ∧ addrs xs' = addrs xs ∧
      Holds cfg p' lent' xs' := by
  have ha : a ∈ addrs xs := h.share.subset (by simp [hl.mem_iff])
  obtain ⟨ys, d, e, zs, rfl⟩ := mem_split ha
  obtain ⟨l, hm, hr⟩ := mark_spec (p := { p with freeList := a :: p.freeList }) h.rep true
  refine ⟨⟨l, a :: p.freeList, onRelease p.flag⟩, ys ++ (a, d, true) :: zs, ?_, rfl, rfl,
    by simp, h.move hr ?_ (fun b hb => by simp [hb]) (by simp)⟩
  · have hp := pointer_spec cfg (p := { p with freeList := a :: p.freeList }) h.rep ha
    simp only [releaseSection]
    rw [Exec.run_bind_done rfl, Exec.run_bind_done hp, Exec.run_bind_done hm]
    rfl
  · exact (List.perm_middle.symm).trans (hl.symm.append_left _)

end AliMiddleware.Pool
