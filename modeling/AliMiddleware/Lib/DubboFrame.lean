import AliMiddleware.Lib.DubboClient

/-!
# Lib — DubboFrame

The 16 bytes of a `dubbo_header` (`lib/dubbo_client.hpp`) and the header they are read back as:
every field is where the reader looks for it (`decode_encode`), and the length that was put in
network order is the length that is announced (`announced_swapBytes`).
-/

namespace AliMiddleware.DubboClient

open Bytes

/-! ### The order of the network -/

theorem toNat_swapBytes (x : UInt32) : (swapBytes x).toNat = ofLe (le 4 x.toNat).reverse := by
  have hlt := ofLe_lt (le 4 x.toNat).reverse
  rw [List.length_reverse, length_le] at hlt
  rw [swapBytes, Nat.toUInt32, UInt32.toNat_ofNat']
  exact Nat.mod_eq_of_lt hlt

theorem swapBytes_swapBytes (x : UInt32) : swapBytes (swapBytes x) = x := by
  apply UInt32.toNat_inj.mp
  have hback : le 4 (ofLe (le 4 x.toNat).reverse) = (le 4 x.toNat).reverse := by
    have hself := le_ofLe (le 4 x.toNat).reverse
    rwa [List.length_reverse, length_le] at hself
  rw [toNat_swapBytes, toNat_swapBytes, hback, List.reverse_reverse, ofLe_le]
  exact Nat.mod_eq_of_lt x.toNat_lt

namespace DubboHeader

/-- The length in a header is the one that is announced. -/
theorem announced_swapBytes {h : DubboHeader} {n : ℕ} (hn : n < 2 ^ 32)
    (hlen : h.dataLength = swapBytes n.toUInt32) : h.announced = n := by
  rw [announced, hlen, swapBytes_swapBytes, Nat.toUInt32, UInt32.toNat_ofNat']
  exact Nat.mod_eq_of_lt hn

/-! ### The flags -/

/-- The byte of the bit-fields holds each of them. -/
theorem toNat_flags (h : DubboHeader) :
    h.flags.toNat = h.serializationId.val + 32 * h.isEvent.toNat + 64 * h.needReturn.toNat +
      128 * h.isRequest.toNat := by
  have hid := h.serializationId.isLt
  have he := Bool.toNat_le h.isEvent
  have hn := Bool.toNat_le h.needReturn
  have hr := Bool.toNat_le h.isRequest
  rw [flags, Nat.toUInt8, UInt8.toNat_ofNat']
  apply Nat.mod_eq_of_lt
  omega

theorem testBit_toNat {n k : ℕ} {b : Bool} (h : n / 2 ^ k % 2 = b.toNat) : n.testBit k = b := by
  rw [Nat.testBit_eq_decide_div_mod_eq, h]
  cases b <;> rfl

/-! ### The round trip -/

theorem length_encode (h : DubboHeader) : h.encode.length = size := by
  simp [encode, size]

/-- **What is read back of a header is the header**, whatever follows it. -/
theorem decode_encode (h : DubboHeader) (rest : Bytes) : decode (h.encode ++ rest) = h := by
  have hparts : decode (h.encode ++ rest) =
      { magic := (ofLe (le 2 h.magic.toNat)).toUInt16
        serializationId := Fin.ofNat 32 (ofLe [h.flags])
        isEvent := (ofLe [h.flags]).testBit 5
        needReturn := (ofLe [h.flags]).testBit 6
        isRequest := (ofLe [h.flags]).testBit 7
        status := (ofLe [h.status]).toUInt8
        requestId := (ofLe (le 8 h.requestId.toNat)).toUInt64
        dataLength := (ofLe (le 4 h.dataLength.toNat)).toUInt32 } := rfl
  have hflags : ofLe [h.flags] = h.flags.toNat := Nat.add_zero _
  have hstatus : ofLe [h.status] = h.status.toNat := Nat.add_zero _
  -- the flag bits are above the five of the serialization id and do not overlap
  have hid := h.serializationId.isLt
  have he := Bool.toNat_le h.isEvent
  have hn := Bool.toNat_le h.needReturn
  have hr := Bool.toNat_le h.isRequest
  have hid' : Fin.ofNat 32 h.flags.toNat = h.serializationId := by
    apply Fin.ext
    rw [toNat_flags, Fin.val_ofNat]
    omega
  have he' : h.flags.toNat.testBit 5 = h.isEvent := by
    refine testBit_toNat ?_
    rw [toNat_flags]
    omega
  have hn' : h.flags.toNat.testBit 6 = h.needReturn := by
    refine testBit_toNat ?_
    rw [toNat_flags]
    omega
  have hr' : h.flags.toNat.testBit 7 = h.isRequest := by
    refine testBit_toNat ?_
    rw [toNat_flags]
    omega
  have hmagic : (ofLe (le 2 h.magic.toNat)).toUInt16 = h.magic := by
    have hlt : h.magic.toNat < 256 ^ 2 := Nat.lt_of_lt_of_eq h.magic.toNat_lt (by decide)
    rw [ofLe_le, Nat.mod_eq_of_lt hlt]
    exact UInt16.ofNat_toNat
  have hrequest : (ofLe (le 8 h.requestId.toNat)).toUInt64 = h.requestId := by
    have hlt : h.requestId.toNat < 256 ^ 8 := Nat.lt_of_lt_of_eq h.requestId.toNat_lt (by decide)
    rw [ofLe_le, Nat.mod_eq_of_lt hlt]
    exact UInt64.ofNat_toNat
  have hlength : (ofLe (le 4 h.dataLength.toNat)).toUInt32 = h.dataLength := by
    have hlt : h.dataLength.toNat < 256 ^ 4 := Nat.lt_of_lt_of_eq h.dataLength.toNat_lt (by decide)
    rw [ofLe_le, Nat.mod_eq_of_lt hlt]
    exact UInt32.ofNat_toNat
  rw [hparts, hflags, hstatus, hid', he', hn', hr', hmagic, hrequest, hlength]
  have hback : h.status.toNat.toUInt8 = h.status := UInt8.ofNat_toNat
  rw [hback]

end DubboHeader

end AliMiddleware.DubboClient
