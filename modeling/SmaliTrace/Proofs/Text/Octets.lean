import Mathlib.Data.List.Basic
import Mathlib.Tactic.Common
import SmaliTrace.Text.Octets

/-!
Texts and values as bytes. Texts in the order of their characters are in the order of their bytes: a lesser character has
the lesser form in UTF-8, whatever follows either of them. A value is made of its pieces, each of which is the form of a
character or a byte of its own, and the pieces of a text are its characters.
-/
namespace SmaliTrace.Text

/-! ### The order of bytes -/

/-- The bytes of a text in UTF-8. -/
def utf8 (s : String) : List UInt8 := s.toUTF8.data.toList

theorem utf8_eq_flatMap (s : String) : utf8 s = s.toList.flatMap String.utf8EncodeChar := by
  have whole : s.toUTF8 = s.toList.utf8Encode := by
    rw [String.toUTF8_eq_toByteArray, ← String.toByteArray_ofList, String.ofList_toList]
  rw [utf8, whole, List.utf8Encode, List.toList_data_toByteArray]

private theorem toNat_ofNat {n : Nat} (fits : n < 256) : (UInt8.ofNat n).toNat = n := by
  rw [UInt8.toNat_ofNat']
  exact Nat.mod_eq_of_lt fits

/-- Bytes are compared at the first place where they differ. -/
theorem cons_lt_cons_of_lt {a b : Nat} (less : a < b) (fits : b < 256) {u v : List UInt8} :
    UInt8.ofNat a :: u < UInt8.ofNat b :: v := by
  rw [List.cons_lt_cons_iff, UInt8.lt_iff_toNat_lt, toNat_ofNat (by omega), toNat_ofNat fits]
  exact .inl less

theorem cons_lt_cons_of_eq {a b : Nat} (same : a = b) {u v : List UInt8} (rest : u < v) :
    UInt8.ofNat a :: u < UInt8.ofNat b :: v := by
  rw [List.cons_lt_cons_iff, same]
  exact .inr ⟨rfl, rest⟩

/-- The form of a lesser character is less before it ends. -/
theorem utf8EncodeChar_append_lt {c d : Char} (less : c < d) (u v : List UInt8) :
    String.utf8EncodeChar c ++ u < String.utf8EncodeChar d ++ v := by
  have order : c.val.toNat < d.val.toNat := less
  have bound : d.val.toNat < 0x110000 := by
    rcases d.valid with low | high <;> omega
  simp only [String.utf8EncodeChar]
  generalize c.val.toNat = m at order ⊢
  generalize d.val.toNat = n at order bound ⊢
  -- a shorter form has the lesser first byte; forms of one length compare like their digits to the base 64
  by_cases one : n ≤ 127
  · rw [if_pos one, if_pos (by omega)]
    exact cons_lt_cons_of_lt order (by omega)
  rw [if_neg one]
  by_cases short : m ≤ 127
  · rw [if_pos short]
    split_ifs <;> exact cons_lt_cons_of_lt (by omega) (by omega)
  rw [if_neg short]
  by_cases two : n ≤ 2047
  · rw [if_pos two, if_pos (by omega)]
    rcases Nat.lt_or_ge (m / 64) (n / 64) with first | later
    · exact cons_lt_cons_of_lt (by omega) (by omega)
    · exact cons_lt_cons_of_eq (by omega) (cons_lt_cons_of_lt (by omega) (by omega))
  rw [if_neg two]
  by_cases short' : m ≤ 2047
  · rw [if_pos short']
    split_ifs <;> exact cons_lt_cons_of_lt (by omega) (by omega)
  rw [if_neg short']
  by_cases three : n ≤ 65535
  · rw [if_pos three, if_pos (by omega)]
    rcases Nat.lt_or_ge (m / 4096) (n / 4096) with first | later
    · exact cons_lt_cons_of_lt (by omega) (by omega)
    refine cons_lt_cons_of_eq (by omega) ?_
    rcases Nat.lt_or_ge (m / 64) (n / 64) with second | later
    · exact cons_lt_cons_of_lt (by omega) (by omega)
    · exact cons_lt_cons_of_eq (by omega) (cons_lt_cons_of_lt (by omega) (by omega))
  rw [if_neg three]
  by_cases short'' : m ≤ 65535
  · rw [if_pos short'']
    exact cons_lt_cons_of_lt (by omega) (by omega)
  rw [if_neg short'']
  rcases Nat.lt_or_ge (m / 262144) (n / 262144) with first | later
  · exact cons_lt_cons_of_lt (by omega) (by omega)
  refine cons_lt_cons_of_eq (by omega) ?_
  rcases Nat.lt_or_ge (m / 4096) (n / 4096) with second | later
  · exact cons_lt_cons_of_lt (by omega) (by omega)
  refine cons_lt_cons_of_eq (by omega) ?_
  rcases Nat.lt_or_ge (m / 64) (n / 64) with third | later
  · exact cons_lt_cons_of_lt (by omega) (by omega)
  · exact cons_lt_cons_of_eq (by omega) (cons_lt_cons_of_lt (by omega) (by omega))

theorem utf8EncodeChar_ne_nil (c : Char) : String.utf8EncodeChar c ≠ [] := by
  simp only [String.utf8EncodeChar]
  split_ifs <;> simp

private theorem append_lt_append_left (front : List UInt8) {u v : List UInt8} (less : u < v) :
    front ++ u < front ++ v := by
  induction front with
  | nil => exact less
  | cons b front ih => exact List.cons_lt_cons_iff.mpr (.inr ⟨rfl, ih⟩)

/-- The lesser of two texts has the lesser bytes. -/
theorem utf8_lt {s t : String} (less : s < t) : utf8 s < utf8 t := by
  rw [utf8_eq_flatMap, utf8_eq_flatMap]
  have less := String.lt_iff.mp less
  generalize s.toList = cs at less ⊢
  generalize t.toList = ds at less ⊢
  induction cs generalizing ds with
  | nil =>
    cases ds with
    | nil => exact absurd less (List.lt_irrefl _)
    | cons d ds =>
      rw [List.flatMap_nil, List.flatMap_cons]
      cases form : String.utf8EncodeChar d with
      | nil => exact absurd form (utf8EncodeChar_ne_nil d)
      | cons b rest => exact List.nil_lt_cons b _
  | cons c cs ih =>
    cases ds with
    | nil => exact absurd less (List.not_lt_nil _)
    | cons d ds =>
      rw [List.flatMap_cons, List.flatMap_cons]
      rcases List.cons_lt_cons_iff.mp less with first | ⟨rfl, rest⟩
      · exact utf8EncodeChar_append_lt first _ _
      · exact append_lt_append_left _ (ih _ rest)

/-! ### Pieces -/

theorem toList_loop (bytes : ByteArray) (i : Nat) (seen : List UInt8) :
    ByteArray.toList.loop bytes i seen = seen.reverse ++ bytes.data.toList.drop i := by
  induction left : bytes.size - i generalizing i seen with
  | zero =>
    rw [ByteArray.toList.loop, if_neg (by omega), List.drop_eq_nil_of_le, List.append_nil]
    exact Nat.sub_eq_zero_iff_le.mp left
  | succ n ih =>
    have inside : i < bytes.size := by omega
    have byte : bytes.get! i = bytes.data.toList[i] := getElem!_pos bytes.data i inside
    rw [ByteArray.toList.loop, if_pos inside, ih _ _ (by omega), byte, List.drop_eq_getElem_cons (i := i) inside,
      List.reverse_cons, List.append_assoc, List.singleton_append]

theorem toNat_val_ofNat {n : Nat} (valid : n.isValidChar) : (Char.ofNat n).val.toNat = n := by
  rw [Char.ofNat, dif_pos valid]
  rfl

/-- The bytes that a piece stands for. -/
def Piece.bytes : Piece → List UInt8
  | .char c => String.utf8EncodeChar c
  | .stray b => [b]

namespace Octets

/-- The bytes of a text are those of its characters. -/
theorem bytes_ofString (s : String) : (ofString s).bytes = s.toList.flatMap String.utf8EncodeChar := by
  rw [← utf8_eq_flatMap, ofString, ByteArray.toList, toList_loop]
  rfl

/-- A text is known from its bytes. -/
theorem ofString_injective {s t : String} (same : ofString s = ofString t) : s = t := by
  have bytes : s.toUTF8.toList = t.toUTF8.toList := congrArg Octets.bytes same
  rw [ByteArray.toList, ByteArray.toList, toList_loop, toList_loop] at bytes
  exact String.toByteArray_inj.mp (ByteArray.ext (Array.toList_inj.mp (by simpa using bytes)))

theorem continuation?_eq_some {b : UInt8} {part : Nat} (read : continuation? b = some part) :
    part < 64 ∧ b = UInt8.ofNat (part + 128) := by
  unfold continuation? at read
  split at read
  · next inside =>
    have value := Option.some.inj read
    refine ⟨by omega, ?_⟩
    rw [← value, Nat.sub_add_cancel inside.1, UInt8.ofNat_toNat]
  · simp at read

/-- A form of more than one byte: its lead bits and the parts in its tail make the code of the character. -/
theorem exists_parts_of_assemble? {lead least : Nat} {tail : List UInt8} {c : Char}
    (read : assemble? lead least tail = some c) : ∃ parts : List Nat, (∀ part ∈ parts, part < 64) ∧
      tail = parts.map (fun part => UInt8.ofNat (part + 128)) ∧
      parts.foldl (fun n part => n * 64 + part) lead = c.val.toNat ∧ least ≤ c.val.toNat := by
  obtain ⟨parts, isTail, read⟩ := Option.bind_eq_some_iff.mp read
  dsimp only at read
  split at read
  · next valid =>
    have isChar := Option.some.inj read
    have code : parts.foldl (fun n part => n * 64 + part) lead = c.val.toNat := by
      rw [← isChar]
      exact (toNat_val_ofNat valid.2).symm
    have each : ∀ {tail : List UInt8} {parts}, tail.mapM continuation? = some parts →
        (∀ part ∈ parts, part < 64) ∧ tail = parts.map (fun part => UInt8.ofNat (part + 128)) := by
      intro tail
      induction tail with
      | nil =>
        intro parts read
        cases read
        simp
      | cons b tail ih =>
        intro parts read
        rw [List.mapM_cons] at read
        obtain ⟨part, isPart, read⟩ := Option.bind_eq_some_iff.mp read
        obtain ⟨others, areParts, read⟩ := Option.bind_eq_some_iff.mp read
        cases read
        obtain ⟨small, rfl⟩ := continuation?_eq_some isPart
        obtain ⟨smaller, rfl⟩ := ih areParts
        exact ⟨by simpa using ⟨small, smaller⟩, rfl⟩
    obtain ⟨small, same⟩ := each isTail
    exact ⟨parts, small, same, code, code ▸ valid.1⟩
  · simp at read

/-- A character at the head of bytes stands there with its whole form. -/
theorem exists_append_of_lead? {b : UInt8} {rest : List UInt8} {c : Char} (read : lead? (b :: rest) = some c) :
    ∃ after, b :: rest = String.utf8EncodeChar c ++ after := by
  have bound : c.val.toNat < 0x110000 := by
    rcases c.valid with low | high <;> omega
  have first {n : Nat} (same : n = b.toNat) : b = UInt8.ofNat n := by rw [same, UInt8.ofNat_toNat]
  -- the tail of the form is what was taken from the rest
  have whole {size : Nat} {parts : List Nat} {n : Nat} (same : n = b.toNat)
      (isTail : rest.take size = parts.map fun part => UInt8.ofNat (part + 128)) :
      b :: rest = UInt8.ofNat n :: parts.map (fun part => UInt8.ofNat (part + 128)) ++ rest.drop size := by
    rw [← first same, ← isTail, List.cons_append, List.take_append_drop]
  unfold lead? at read
  dsimp only at read
  repeat' split at read
  · next ascii =>
    have isChar := Option.some.inj read
    have code : c.val.toNat = b.toNat := by
      rw [← isChar]
      exact toNat_val_ofNat (.inl (by omega))
    refine ⟨rest, ?_⟩
    rw [String.utf8EncodeChar, code, if_pos (by omega), ← first rfl]
    rfl
  · next two =>
    obtain ⟨parts, small, isTail, code, least⟩ := exists_parts_of_assemble? read
    have length : parts.length = 1 := by simpa [two] using (congrArg List.length isTail).symm
    obtain ⟨p, rfl⟩ := List.length_eq_one_iff.mp length
    simp only [List.mem_singleton, forall_eq, List.foldl_cons, List.foldl_nil] at small code
    refine ⟨rest.drop 1, ?_⟩
    rw [String.utf8EncodeChar, ← code, if_neg (by omega), if_pos (by omega)]
    rw [show ((b.toNat - 192) * 64 + p) % 64 = p by omega]
    exact whole (by omega) isTail
  · next three =>
    obtain ⟨parts, small, isTail, code, least⟩ := exists_parts_of_assemble? read
    have length : parts.length = 2 := by simpa [three] using (congrArg List.length isTail).symm
    obtain ⟨p, q, rfl⟩ := List.length_eq_two.mp length
    simp only [List.forall_mem_cons, List.foldl_cons, List.foldl_nil] at small code
    obtain ⟨high, low, -⟩ := small
    refine ⟨rest.drop 2, ?_⟩
    rw [String.utf8EncodeChar, ← code, if_neg (by omega), if_neg (by omega), if_pos (by omega)]
    rw [show (((b.toNat - 224) * 64 + p) * 64 + q) / 64 % 64 = p by omega,
      show (((b.toNat - 224) * 64 + p) * 64 + q) % 64 = q by omega]
    exact whole (by omega) isTail
  · next four =>
    obtain ⟨parts, small, isTail, code, least⟩ := exists_parts_of_assemble? read
    have length : parts.length = 3 := by simpa [four] using (congrArg List.length isTail).symm
    obtain ⟨p, q, t, rfl⟩ := List.length_eq_three.mp length
    simp only [List.forall_mem_cons, List.foldl_cons, List.foldl_nil] at small code
    obtain ⟨high, middle, low, -⟩ := small
    refine ⟨rest.drop 3, ?_⟩
    rw [String.utf8EncodeChar, ← code, if_neg (by omega), if_neg (by omega), if_neg (by omega)]
    rw [show ((((b.toNat - 240) * 64 + p) * 64 + q) * 64 + t) / 4096 % 64 = p by omega,
      show ((((b.toNat - 240) * 64 + p) * 64 + q) * 64 + t) / 64 % 64 = q by omega,
      show ((((b.toNat - 240) * 64 + p) * 64 + q) * 64 + t) % 64 = t by omega]
    exact whole (by omega) isTail
  · simp at read

theorem flatMap_piecesAfter (skip : Nat) (bytes : List UInt8) :
    (piecesAfter skip bytes).flatMap Piece.bytes = bytes.drop skip := by
  induction bytes generalizing skip with
  | nil => rw [piecesAfter, List.flatMap_nil, List.drop_nil]
  | cons b rest ih =>
    cases skip with
    | succ skip => rw [piecesAfter, ih, List.drop_succ_cons]
    | zero =>
      rw [piecesAfter]
      split
      · next c read =>
        obtain ⟨after, form⟩ := exists_append_of_lead? read
        have behind : rest.drop (c.utf8Size - 1) = after := by
          calc
            rest.drop (c.utf8Size - 1) = (b :: rest).drop (c.utf8Size - 1 + 1) := rfl
            _ = (b :: rest).drop (String.utf8EncodeChar c).length := by
              rw [Nat.sub_add_cancel c.utf8Size_pos, String.length_utf8EncodeChar]
            _ = after := by rw [form, List.drop_left]
        rw [List.flatMap_cons, ih, Piece.bytes, List.drop_zero, behind, form]
      · rw [List.flatMap_cons, ih, Piece.bytes, List.drop_zero, List.drop_zero, List.singleton_append]

/-- The pieces of a value make up the value. -/
theorem flatMap_pieces (v : Octets) : v.pieces.flatMap Piece.bytes = v.bytes := flatMap_piecesAfter 0 v.bytes

/-! ### Texts -/

theorem continuation?_ofNat {part : Nat} (small : part < 64) : continuation? (UInt8.ofNat (part + 128)) = some part := by
  have value : (UInt8.ofNat (part + 128)).toNat = part + 128 := by
    rw [UInt8.toNat_ofNat']
    omega
  rw [continuation?, value, if_pos (by omega), Nat.add_sub_cancel]

/-- A character is put together from the parts of its form. -/
theorem assemble?_eq_some {lead least : Nat} {parts : List Nat} {c : Char} (small : ∀ part ∈ parts, part < 64)
    (code : parts.foldl (fun n part => n * 64 + part) lead = c.val.toNat) (shortest : least ≤ c.val.toNat) :
    assemble? lead least (parts.map fun part => UInt8.ofNat (part + 128)) = some c := by
  have each : (parts.map fun part => UInt8.ofNat (part + 128)).mapM continuation? = some parts := by
    induction parts generalizing lead with
    | nil => rfl
    | cons part parts ih =>
      obtain ⟨here, later⟩ := List.forall_mem_cons.mp small
      rw [List.map_cons, List.mapM_cons, continuation?_ofNat here, ih later code]
      rfl
  rw [assemble?, each]
  simp only [bind, Option.bind_some, code]
  rw [if_pos ⟨shortest, c.valid⟩]
  exact congrArg some (Char.ofNat_toNat c)

/-- The form of a character is read as the character, whatever follows. -/
theorem lead?_utf8EncodeChar (c : Char) (rest : List UInt8) : lead? (String.utf8EncodeChar c ++ rest) = some c := by
  have bound : c.val.toNat < 0x110000 := by
    rcases c.valid with low | high <;> omega
  have byte {n : Nat} (fits : n < 256) : (UInt8.ofNat n).toNat = n := by
    rw [UInt8.toNat_ofNat']
    exact Nat.mod_eq_of_lt fits
  rw [String.utf8EncodeChar]
  generalize code : c.val.toNat = n at bound
  split_ifs
  · rw [List.singleton_append, lead?, byte (by omega), if_pos (by omega), ← code]
    exact congrArg some (Char.ofNat_toNat c)
  · have parts := @assemble?_eq_some (n / 64 % 32) 0x80 [n % 64] c (by simp; omega) (by simp [code]; omega) (by omega)
    rw [List.cons_append, lead?, byte (by omega), if_neg (by omega), if_pos (by simp; omega)]
    simpa [Nat.add_sub_cancel] using parts
  · have parts := @assemble?_eq_some (n / 4096 % 16) 0x800 [n / 64 % 64, n % 64] c (by simp; omega)
      (by simp [code]; omega) (by omega)
    rw [List.cons_append, lead?, byte (by omega), if_neg (by omega), if_neg (by omega), if_pos (by simp; omega)]
    simpa [Nat.add_sub_cancel] using parts
  · have parts := @assemble?_eq_some (n / 262144 % 8) 0x10000 [n / 4096 % 64, n / 64 % 64, n % 64] c (by simp; omega)
      (by simp [code]; omega) (by omega)
    rw [List.cons_append, lead?, byte (by omega), if_neg (by omega), if_neg (by omega), if_neg (by omega),
      if_pos (by simp; omega)]
    simpa [Nat.add_sub_cancel] using parts

theorem piecesAfter_append (form rest : List UInt8) : piecesAfter form.length (form ++ rest) = piecesAfter 0 rest := by
  induction form with
  | nil => rfl
  | cons b form ih => rw [List.cons_append, List.length_cons, piecesAfter, ih]

/-- A text is shown as it is. -/
theorem toText_ofString (s : String) : (ofString s).toText = s := by
  have pieces : ∀ cs : List Char, piecesAfter 0 (cs.flatMap String.utf8EncodeChar) = cs.map .char := by
    intro cs
    induction cs with
    | nil => rfl
    | cons c cs ih =>
      rw [List.flatMap_cons, List.map_cons, ← ih]
      cases form : String.utf8EncodeChar c with
      | nil => exact absurd form (utf8EncodeChar_ne_nil c)
      | cons b tail =>
        have size : c.utf8Size - 1 = tail.length := by
          rw [← String.length_utf8EncodeChar, form, List.length_cons, Nat.add_sub_cancel]
        have found := lead?_utf8EncodeChar c (cs.flatMap String.utf8EncodeChar)
        rw [form, List.cons_append] at found
        rw [List.cons_append, piecesAfter, found]
        dsimp only
        rw [size, piecesAfter_append]
  rw [toText, Octets.pieces, bytes_ofString, pieces, List.map_map]
  exact (congrArg String.ofList (List.map_id _)).trans String.ofList_toList

end Octets

end SmaliTrace.Text
