import AccessAudit.Text.Utf8

/-!
# Texts and their bytes

The bytes of a text are those of its characters one after the other, and give the text back.  A character of
ASCII is one byte, and all bytes of another one are beyond ASCII.
-/

namespace AccessAudit
namespace Text

theorem toList_loop
    (b : ByteArray)
    (i : Nat)
    (r : List UInt8) :
    ByteArray.toList.loop b i r = r.reverse ++ b.data.toList.drop i := by
  induction i, r using ByteArray.toList.loop.induct b with
  | case1 i r hi ih =>
      have hlt : i < b.data.toList.length := hi
      have hget : b.get! i = b.data.toList[i] := by
        rw [Array.getElem_toList]
        exact getElem!_pos b.data i hi
      rw [ByteArray.toList.loop, if_pos hi, ih, hget, List.drop_eq_getElem_cons hlt]
      simp
  | case2 i r hi =>
      have hle : b.data.toList.length ≤ i := Nat.not_lt.mp hi
      rw [ByteArray.toList.loop, if_neg hi, List.drop_eq_nil_of_le hle, List.append_nil]

theorem toList_eq_data
    (b : ByteArray) :
    b.toList = b.data.toList := by
  rw [ByteArray.toList, toList_loop]
  rfl

/-- The bytes of a text are those of its characters. -/
theorem toBytes_ofList
    (s : List Char) :
    toBytes (String.ofList s) = s.flatMap fun c => toBytes (String.singleton c) := by
  induction s with
  | nil => simp [toBytes, toList_eq_data]
  | cons c s ih =>
      have hcons : (String.ofList (c :: s)).toByteArray =
          (String.singleton c).toByteArray ++ (String.ofList s).toByteArray := by
        rw [String.toByteArray_ofList, List.utf8Encode_cons, String.toByteArray_singleton,
          String.toByteArray_ofList]
      rw [List.flatMap_cons, ← ih]
      simp only [toBytes, String.toUTF8, hcons, toList_eq_data, ByteArray.toList_data_append, List.map_append]

/-- A text is read from its bytes. -/
theorem fromUTF8?_toBytes
    (s : String) :
    String.fromUTF8? (ByteArray.mk ((toBytes s).map UInt8.ofNat).toArray) = some s := by
  have hbytes : ByteArray.mk ((toBytes s).map UInt8.ofNat).toArray = s.toByteArray := by
    rw [toBytes, toList_eq_data, List.map_map]
    have hid : (UInt8.ofNat ∘ fun b : UInt8 => b.toNat) = id := by
      funext b
      exact UInt8.ofNat_toNat
    rw [hid, List.map_id]
    rfl
  rw [hbytes, String.fromUTF8?, dif_pos s.isValidUTF8]
  rfl

theorem toBytes_singleton
    (c : Char) :
    toBytes (String.singleton c) = (String.utf8EncodeChar c).map (·.toNat) := by
  rw [toBytes, String.toUTF8, String.toByteArray_singleton, List.utf8Encode_singleton, toList_eq_data,
    List.toList_data_toByteArray]

theorem toBytes_singleton_ne_nil
    (c : Char) :
    toBytes (String.singleton c) ≠ [] := by
  rw [toBytes_singleton, Ne, List.map_eq_nil_iff, ← List.length_eq_zero_iff, String.length_utf8EncodeChar]
  exact Nat.ne_of_gt c.utf8Size_pos

theorem lt_of_mem_toBytes
    {s : String}
    {b : Nat}
    (h : b ∈ toBytes s) :
    b < 256 := by
  obtain ⟨byte, _, rfl⟩ := List.mem_map.mp h
  exact byte.toNat_lt

/-- A character of ASCII is one byte. -/
theorem toBytes_ascii
    {c : Char}
    (h : c.toNat < 128) :
    toBytes (String.singleton c) = [c.toNat] := by
  have hle : c.val.toNat ≤ 127 := Nat.le_of_lt_succ h
  rw [toBytes_singleton, String.utf8EncodeChar]
  simp only [if_pos hle, List.map_cons, List.map_nil, List.cons.injEq, and_true]
  exact UInt8.toNat_ofNat_of_lt' (by show c.val.toNat < 256; omega)

/-- All bytes of a character beyond ASCII are beyond ASCII. -/
theorem le_of_mem_toBytes
    {c : Char}
    (h : 128 ≤ c.toNat)
    {b : Nat}
    (hb : b ∈ toBytes (String.singleton c)) :
    128 ≤ b := by
  have hle : ¬ c.val.toNat ≤ 127 := Nat.not_le.mpr h
  rw [toBytes_singleton, String.utf8EncodeChar] at hb
  simp only [if_neg hle] at hb
  split at hb
  · simp only [List.map_cons, List.map_nil, List.mem_cons, List.not_mem_nil, or_false] at hb
    rcases hb with rfl | rfl <;> simp only [UInt8.toNat_ofNat'] <;> omega
  · split at hb
    · simp only [List.map_cons, List.map_nil, List.mem_cons, List.not_mem_nil, or_false] at hb
      rcases hb with rfl | rfl | rfl <;> simp only [UInt8.toNat_ofNat'] <;> omega
    · simp only [List.map_cons, List.map_nil, List.mem_cons, List.not_mem_nil, or_false] at hb
      rcases hb with rfl | rfl | rfl | rfl <;> simp only [UInt8.toNat_ofNat'] <;> omega

end Text
end AccessAudit
