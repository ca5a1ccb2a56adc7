/-!
# Text as bytes

* `utf8 s`    the bytes of a text in UTF-8
* `utf8? b`   the text whose UTF-8 is `b`, if `b` is well formed
-/

namespace IPPcode24

abbrev Bytes := List UInt8

def utf8 (s : List Char) : Bytes := s.flatMap String.utf8EncodeChar

def utf8? (b : Bytes) : Option (List Char) := b.toByteArray.utf8Decode?.map Array.toList

theorem utf8_nil : utf8 [] = [] := rfl
theorem utf8_cons (c : Char) (s : List Char) : utf8 (c :: s) = String.utf8EncodeChar c ++ utf8 s := rfl
theorem utf8_append (s t : List Char) : utf8 (s ++ t) = utf8 s ++ utf8 t := List.flatMap_append

/-- a byte below 128 is the code of the character that it encodes -/
theorem toNat_of_mem_utf8EncodeChar (c : Char) (b : UInt8) (h : b ∈ String.utf8EncodeChar c)
    (hb : b.toNat < 128) : c.toNat = b.toNat := by
  show c.val.toNat = b.toNat
  unfold String.utf8EncodeChar at h
  generalize c.val.toNat = n at h
  dsimp only at h
  split at h
  · next hn =>
    cases List.mem_singleton.mp h
    rw [UInt8.toNat_ofNat']
    omega
  · -- all bytes of a longer encoding have their highest bit
    exfalso
    split at h
    · simp only [List.mem_cons, List.not_mem_nil, or_false] at h
      rcases h with h | h
      all_goals
        rw [h, UInt8.toNat_ofNat'] at hb
        omega
    · split at h
      · simp only [List.mem_cons, List.not_mem_nil, or_false] at h
        rcases h with h | h | h
        all_goals
          rw [h, UInt8.toNat_ofNat'] at hb
          omega
      · simp only [List.mem_cons, List.not_mem_nil, or_false] at h
        rcases h with h | h | h | h
        all_goals
          rw [h, UInt8.toNat_ofNat'] at hb
          omega

/-- a line feed is found in the bytes where it is in the text, and in no other character -/
theorem lf_mem_utf8 (s : List Char) : 0x0A ∈ utf8 s ↔ '\n' ∈ s := by
  rw [utf8, List.mem_flatMap]
  constructor
  · intro h
    obtain ⟨c, hc, hb⟩ := h
    have hcode : c.toNat = '\n'.toNat := toNat_of_mem_utf8EncodeChar c 0x0A hb (by decide)
    rwa [← Char.toNat_inj.mp hcode]
  · intro h
    exact ⟨'\n', h, by decide⟩

/-- a text is read back from its bytes -/
theorem utf8?_utf8 (s : List Char) : utf8? (utf8 s) = some s := by
  have h : (utf8 s).toByteArray = s.utf8Encode := rfl
  rw [utf8?, h, List.utf8Decode?_utf8Encode]
  rfl

/-- only well-formed bytes are read, and as the text that they encode -/
theorem utf8?_eq_some (b : Bytes) (s : List Char) : utf8? b = some s ↔ b = utf8 s := by
  constructor
  · intro h
    obtain ⟨cs, hcs, rfl⟩ := Option.map_eq_some_iff.mp h
    have hsome : b.toByteArray.utf8Decode?.isSome := by rw [hcs]; rfl
    have henc : (b.toByteArray.utf8Decode?.get hsome).toList.utf8Encode = b.toByteArray :=
      ByteArray.utf8Encode_get_utf8Decode?
    rw [Option.get_of_eq_some hsome hcs] at henc
    have hbytes : (utf8 cs.toList).toByteArray.data.toList = b.toByteArray.data.toList :=
      congrArg (fun x => x.data.toList) henc
    rw [List.toList_data_toByteArray, List.toList_data_toByteArray] at hbytes
    exact hbytes.symm
  · intro h
    rw [h, utf8?_utf8]

end IPPcode24
