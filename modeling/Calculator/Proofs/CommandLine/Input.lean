/-
Standard input can be cut into lines before it is known to be text.

A dialogue reads bytes up to a newline and only then asks what characters they are; a
file is text first and cut afterwards.  For input that is text both find the same lines.
It is not the encoding of characters that matters for this but how it treats two of
them: the newline and the return are one byte each, and no other character has that
byte in its code (`KeepsEnds`).
-/
import Calculator.CommandLine.Run

namespace Calculator

/-! ### Cutting what is encoded -/

namespace Text

section Encoding

variable {α β : Type} [DecidableEq α] [DecidableEq β]

/-- In the code of a text the two ends of a line are letters again, which occur in the codes of no
other letters, and no letter disappears. -/
structure KeepsEnds (encode : α → List β) (newline ret : α) (newline' ret' : β) : Prop where
  encode_newline : encode newline = [newline']
  encode_ret : encode ret = [ret']
  newline_only : ∀ {c}, newline' ∈ encode c → c = newline
  ret_only : ∀ {c}, ret' ∈ encode c → c = ret
  ne_nil : ∀ c, encode c ≠ []

/-- A text without a newline is one line, or none if it is empty. -/
private theorem cutLines_of_none {newline ret : α} {cs line : List α}
    (h : cutLine newline cs = (line, none)) :
    cutLines newline ret cs = if line.isEmpty then [] else [line] := by
  rw [cutLines]
  split
  · rename_i h'
    rw [h] at h'
    cases h'
    rfl
  · rename_i h'
    rw [h] at h'
    cases h'

/-- The first newline of a text ends its first line. -/
private theorem cutLines_of_some {newline ret : α} {cs line rest : List α}
    (h : cutLine newline cs = (line, some rest)) :
    cutLines newline ret cs = dropReturn ret line :: cutLines newline ret rest := by
  rw [cutLines]
  split
  · rename_i h'
    rw [h] at h'
    cases h'
  · rename_i h'
    rw [h] at h'
    cases h'
    rfl

/-- What holds no newline goes to the first line whole. -/
theorem cutLine_append {newline : α} {front : List α} (h : newline ∉ front) (cs : List α) :
    cutLine newline (front ++ cs) = (front ++ (cutLine newline cs).1, (cutLine newline cs).2) := by
  induction front with
  | nil => rfl
  | cons c front ih =>
      rw [List.mem_cons, not_or] at h
      rw [List.cons_append, cutLine, if_neg (Ne.symm h.1), ih h.2]
      rfl

variable {encode : α → List β} {newline ret : α} {newline' ret' : β}
  (he : KeepsEnds encode newline ret newline' ret')

include he

private theorem cutLine_flatMap (cs : List α) :
    cutLine newline' (cs.flatMap encode)
      = ((cutLine newline cs).1.flatMap encode,
          (cutLine newline cs).2.map (List.flatMap encode)) := by
  induction cs with
  | nil => rfl
  | cons c cs ih =>
      by_cases hc : c = newline
      · rw [hc, List.flatMap_cons, he.encode_newline, cutLine, List.singleton_append, cutLine,
          if_pos rfl, if_pos rfl]
        rfl
      · rw [List.flatMap_cons, cutLine_append (mt he.newline_only hc), ih, cutLine, if_neg hc,
          List.flatMap_cons]

private theorem dropReturn_flatMap (line : List α) :
    dropReturn ret' (line.flatMap encode) = (dropReturn ret line).flatMap encode := by
  rcases List.eq_nil_or_concat line with rfl | ⟨front, c, rfl⟩
  · rfl
  · by_cases hc : c = ret
    · simp [dropReturn, hc, he.encode_ret]
    · have hlast : (encode c).getLast? ≠ some ret' := by
        intro h
        exact hc (he.ret_only (List.mem_of_getLast? h))
      simp [dropReturn, hc, hlast, he.ne_nil]

/-- **Cutting a text and encoding it can change places.** -/
theorem cutLines_flatMap (cs : List α) :
    cutLines newline' ret' (cs.flatMap encode)
      = (cutLines newline ret cs).map (List.flatMap encode) := by
  have hcut := cutLine_flatMap he cs
  cases hline : cutLine newline cs with
  | mk line rest? =>
      rw [hline] at hcut
      cases rest? with
      | none =>
          rw [cutLines_of_none hline, cutLines_of_none hcut]
          cases line with
          | nil => rfl
          | cons c line => simp [he.ne_nil]
      | some rest =>
          have : rest.length < cs.length := length_of_cutLine (by rw [hline])
          rw [cutLines_of_some hline, cutLines_of_some hcut, List.map_cons, dropReturn_flatMap he,
            cutLines_flatMap rest]
termination_by cs.length

end Encoding

end Text

/-! ### The bytes of a text -/

namespace CommandLine

/-- A byte below 128 is the code of a character by itself, and says which. -/
private theorem toNat_eq_of_mem_utf8EncodeChar {c : Char} {b : UInt8}
    (h : b ∈ String.utf8EncodeChar c) (hb : b.toNat < 128) : c.toNat = b.toNat := by
  have hcode : ∀ n : Nat, b = UInt8.ofNat n → b.toNat = n % 256 := by
    intro n hn
    rw [hn, UInt8.toNat_ofNat']
  have hval : c.toNat = c.val.toNat := rfl
  -- In a code of several bytes each of them is 128 or more.
  unfold String.utf8EncodeChar at h
  simp only at h
  split at h
  · have := hcode _ (List.mem_singleton.1 h)
    omega
  · exfalso
    split at h
    · simp only [List.mem_cons, List.not_mem_nil, or_false] at h
      rcases h with h | h
      all_goals
        have := hcode _ h
        omega
    · split at h
      · simp only [List.mem_cons, List.not_mem_nil, or_false] at h
        rcases h with h | h | h
        all_goals
          have := hcode _ h
          omega
      · simp only [List.mem_cons, List.not_mem_nil, or_false] at h
        rcases h with h | h | h | h
        all_goals
          have := hcode _ h
          omega

/-- The code of a text keeps the ends of its lines. -/
theorem keepsEnds_utf8EncodeChar :
    Text.KeepsEnds String.utf8EncodeChar '\n' '\r' newline ret := by
  refine ⟨rfl, rfl, ?_, ?_, ?_⟩
  · intro c hc
    exact Char.toNat_inj.1 (toNat_eq_of_mem_utf8EncodeChar hc (by decide))
  · intro c hc
    exact Char.toNat_inj.1 (toNat_eq_of_mem_utf8EncodeChar hc (by decide))
  · intro c
    exact String.utf8EncodeChar_ne_nil

/-- The loop that lists an array puts what is left of it behind what it has listed. -/
private theorem toList_loop_eq (bytes : ByteArray) (i : Nat) (before : List UInt8) :
    ByteArray.toList.loop bytes i before = before.reverse ++ bytes.data.toList.drop i := by
  fun_induction ByteArray.toList.loop bytes i before with
  | case1 i before hi ih =>
      have hlt : i < bytes.data.toList.length := by simpa using hi
      rw [ih, List.drop_eq_getElem_cons (l := bytes.data.toList) hlt]
      simp [ByteArray.get!, hi]
  | case2 i before hi =>
      rw [List.drop_eq_nil_of_le (by simpa using Nat.le_of_not_lt hi), List.append_nil]

/-- An array of the bytes of a list lists these bytes. -/
private theorem toList_toByteArray (bytes : List UInt8) : bytes.toByteArray.toList = bytes := by
  rw [ByteArray.toList, toList_loop_eq, List.toList_data_toByteArray]
  rfl

/-- The bytes of a text are the codes of its characters. -/
theorem toList_toUTF8 (text : String) :
    text.toUTF8.toList = text.toList.flatMap String.utf8EncodeChar := by
  rw [String.toUTF8_eq_toByteArray, ← String.utf8Encode_toList]
  exact toList_toByteArray _

/-- The bytes of a text are read back to it. -/
theorem fromUTF8?_toUTF8 (text : String) : String.fromUTF8? text.toUTF8 = some text := by
  rw [String.toUTF8_eq_toByteArray, String.fromUTF8?, dif_pos text.isValidUTF8]
  rfl

namespace Input

/-- Lines that hold the codes of characters are read as these characters. -/
theorem ofLines_map_flatMap (lines : List (List Char)) :
    ofLines (lines.map (List.flatMap String.utf8EncodeChar))
      = ⟨lines.map String.ofList, false⟩ := by
  induction lines with
  | nil => rfl
  | cons line lines ih =>
      have hline : String.fromUTF8? ⟨(line.flatMap String.utf8EncodeChar).toArray⟩
          = some (String.ofList line) := by
        have hbytes : (⟨(line.flatMap String.utf8EncodeChar).toArray⟩ : ByteArray)
            = (String.ofList line).toUTF8 := by
          rw [String.toUTF8_eq_toByteArray, String.toByteArray_ofList, List.utf8Encode,
            ← List.data_toByteArray]
        rw [hbytes, fromUTF8?_toUTF8]
      rw [List.map_cons, ofLines, hline, ih]
      rfl

/-- **The lines of a text are found in its bytes**, and each is read by itself. -/
theorem ofBytes_toUTF8 (text : String) : ofBytes text.toUTF8 = ⟨Text.lines text, false⟩ := by
  rw [ofBytes, toList_toUTF8, Text.cutLines_flatMap keepsEnds_utf8EncodeChar, ofLines_map_flatMap]
  rfl

end Input

end CommandLine

end Calculator
