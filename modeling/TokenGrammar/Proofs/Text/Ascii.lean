import Mathlib.Data.List.Basic
import TokenGrammar.Text.Ranges

/-!
# ASCII text as bytes

The UTF-8 form of an ASCII text has one byte for each character, so that the order of such
texts is the order of their bytes.
-/

namespace TokenGrammar.Text

/-- The bytes of the UTF-8 form of a text. -/
def bytes (s : String) : List UInt8 := s.toUTF8.data.toList

/-- The byte of an ASCII character. -/
def byteOf (c : Char) : UInt8 := UInt8.ofNat c.toNat

theorem utf8EncodeChar_of_isAscii {c : Char} (h : isAscii c = true) :
    String.utf8EncodeChar c = [byteOf c] :=
  if_pos (Nat.le_of_lt_succ (of_decide_eq_true h))

theorem bytes_ofList {cs : List Char} (h : ∀ c ∈ cs, isAscii c = true) :
    bytes (String.ofList cs) = cs.map byteOf := by
  have hencode : bytes (String.ofList cs) = cs.flatMap String.utf8EncodeChar := by
    change (cs.flatMap String.utf8EncodeChar).toByteArray.data.toList = _
    rw [List.data_toByteArray]
  rw [hencode, List.flatMap_congr fun c hc => utf8EncodeChar_of_isAscii (h c hc),
    List.map_eq_flatMap]

theorem byteOf_lt {c d : Char} (hc : isAscii c = true) (hd : isAscii d = true) (h : c < d) :
    byteOf c < byteOf d := by
  have hlt : c.toNat < d.toNat := h
  have hc' := of_decide_eq_true hc
  have hd' := of_decide_eq_true hd
  rw [byteOf, byteOf, UInt8.lt_iff_toNat_lt, UInt8.toNat_ofNat', UInt8.toNat_ofNat']
  omega

theorem map_byteOf_lt {as bs : List Char} (ha : ∀ c ∈ as, isAscii c = true)
    (hb : ∀ c ∈ bs, isAscii c = true) (h : as < bs) : as.map byteOf < bs.map byteOf := by
  induction as generalizing bs with
  | nil =>
      cases bs with
      | nil => exact absurd h (List.lt_irrefl _)
      | cons d bs => exact List.nil_lt_cons _ _
  | cons c as ih =>
      cases bs with
      | nil => cases h
      | cons d bs =>
          rw [List.forall_mem_cons] at ha hb
          rw [List.map_cons, List.map_cons, List.cons_lt_cons_iff]
          rcases List.cons_lt_cons_iff.1 h with hlt | ⟨rfl, hlt⟩
          · exact .inl (byteOf_lt ha.1 hb.1 hlt)
          · exact .inr ⟨rfl, ih ha.2 hb.2 hlt⟩

/-- The order of ASCII texts is the order of their bytes. -/
theorem bytes_ofList_lt {as bs : List Char} (ha : ∀ c ∈ as, isAscii c = true)
    (hb : ∀ c ∈ bs, isAscii c = true) (h : as < bs) :
    bytes (String.ofList as) < bytes (String.ofList bs) := by
  rw [bytes_ofList ha, bytes_ofList hb]
  exact map_byteOf_lt ha hb h

end TokenGrammar.Text
