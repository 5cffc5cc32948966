import SmaliTrace.Proofs.Number.Digits
import SmaliTrace.Proofs.Text.Octets
import SmaliTrace.Proofs.Text.Quoted
import SmaliTrace.Proofs.Timestamp
import SmaliTrace.Store.Json

/-!
A record is read back from its JSON text: every part of the text is taken off by its reader, whatever stands behind it.
-/
namespace SmaliTrace.Store.Json

variable {α : Type} {rest : List Char}

/-- The reader takes exactly the text of a value off the start. -/
def Reads (read : Reader α) (write : α → List Char) : Prop := ∀ a rest, read.run (write a ++ rest) = some (a, rest)

/-- A reader that takes a text off is followed by the next one on the rest. -/
theorem run_then {β : Type} {read : Reader α} {s : List Char} {a : α} (taken : read.run s = some (a, rest))
    (next : α → Reader β) : (read >>= next).run s = (next a).run rest := by
  rw [StateT.run_bind, taken]
  rfl

/-! ### Fixed texts and truth values -/

theorem isPrefixOf?_append (t rest : List Char) : t.isPrefixOf? (t ++ rest) = some rest := by
  induction t with
  | nil => rfl
  | cons c t ih => simp [List.isPrefixOf?, ih]

@[simp] theorem run_takes (t : String) (rest : List Char) : (takes t).run (t.toList ++ rest) = some (true, rest) := by
  simp [takes, isPrefixOf?_append]

theorem run_takes_of_eq_none {t : String} (absent : t.toList.isPrefixOf? rest = none) :
    (takes t).run rest = some (false, rest) := by
  simp [takes, absent]

@[simp] theorem run_expect (t : String) (rest : List Char) : (expect t).run (t.toList ++ rest) = some ((), rest) := by
  simp [expect]

@[simp] theorem run_readBool (b : Bool) (rest : List Char) : readBool.run (bool b ++ rest) = some (b, rest) := by
  cases b with
  | true => rfl
  | false => rfl

/-! ### Texts -/

theorem charsOf_cons {c : Char} (notQuote : c ≠ '"') (notBackslash : c ≠ '\\') (rest : List Char) :
    charsOf (c :: rest) = (charsOf rest).map fun found => (c :: found.1, found.2) := by
  rw [charsOf]
  · cases charsOf rest with
    | none => rfl
    | some found => rfl
  · exact notQuote
  · intro _ _ _ _ _ same
    exact absurd same notBackslash
  · intro _ _ same
    exact absurd same notBackslash

theorem charsOf_hexDigits {n : Nat} (short : n < 16 ^ 4) (rest : List Char) :
    charsOf ('\\' :: 'u' :: (Text.hexDigits 4 n ++ rest)) =
      (charsOf rest).map fun found => (Char.ofNat n :: found.1, found.2) := by
  have value := Text.digitsValue?_hexDigits short
  have written : Text.hexDigits 4 n = [Text.hexDigit (n / 16 / 16 / 16 % 16), Text.hexDigit (n / 16 / 16 % 16),
      Text.hexDigit (n / 16 % 16), Text.hexDigit (n % 16)] := rfl
  rw [written] at value ⊢
  simp only [List.cons_append, List.nil_append, charsOf, value]
  cases charsOf rest with
  | none => rfl
  | some found => rfl

/-- A character that is written by a letter is read from it. -/
theorem charsOf_shortEscape {c letter : Char} (isShort : shortEscape? c = some letter) (rest : List Char) :
    charsOf ('\\' :: letter :: rest) = (charsOf rest).map fun found => (c :: found.1, found.2) := by
  unfold shortEscape? at isShort
  split_ifs at isShort with same newline return' tab
  · obtain rfl := Option.some.inj isShort
    rcases (by simpa using same : c = '"' ∨ c = '\\') with rfl | rfl
    all_goals simp [charsOf, Option.map_eq_bind, Function.comp_def]
  all_goals
    subst c
    obtain rfl := Option.some.inj isShort
    simp [charsOf, Option.map_eq_bind, Function.comp_def]

theorem charsOf_escape (c : Char) (rest : List Char) :
    charsOf (escape c ++ rest) = (charsOf rest).map fun found => (c :: found.1, found.2) := by
  unfold escape
  cases isShort : shortEscape? c with
  | some letter => exact charsOf_shortEscape isShort rest
  | none =>
    obtain ⟨notQuote, notBackslash⟩ : c ≠ '"' ∧ c ≠ '\\' := by
      constructor
      all_goals
        rintro rfl
        cases isShort
    by_cases coded : isCoded c = true
    · have short : c.toNat < 16 ^ 4 := by
        simp only [isCoded, Bool.or_eq_true, decide_eq_true_eq] at coded
        rcases coded with ((((control | rfl) | rfl) | rfl) | line) | paragraph
        all_goals first | decide | omega
      rw [if_pos coded]
      simpa using charsOf_hexDigits short rest
    · simpa [coded] using charsOf_cons notQuote notBackslash rest

@[simp] theorem run_readString (s : String) (rest : List Char) : readString.run (string s ++ rest) = some (s, rest) := by
  have chars (cs : List Char) : charsOf (cs.flatMap escape ++ '"' :: rest) = some (cs, rest) := by
    induction cs with
    | nil => simp [charsOf]
    | cons c cs ih => rw [List.flatMap_cons, List.append_assoc, charsOf_escape, ih, Option.map_some]
  have opened := run_expect "\"" (s.toList.flatMap escape ++ '"' :: rest)
  rw [show string s ++ rest = "\"".toList ++ (s.toList.flatMap escape ++ '"' :: rest) by simp [string]]
  simp only [readString, StateT.run_bind, opened, StateT.run_get, Option.pure_def, Option.bind_eq_bind, Option.bind_some,
    StateT.run_lift, chars, StateT.run_set, StateT.run_pure, String.ofList_toList]

/-! ### Integers -/

theorem run_readNat {n : Nat} (comma : rest.head? = some ',') :
    readNat.run (Nat.toDigits 10 n ++ rest) = some (n, rest) := by
  have areDigits : ∀ c ∈ Nat.toDigits 10 n, c.isDigit = true := fun _ =>
    Nat.isDigit_of_mem_toDigits (by decide) (by decide)
  obtain ⟨tail, rfl⟩ : ∃ tail, rest = ',' :: tail := List.head?_eq_some_iff.mp comma
  have taken : (Nat.toDigits 10 n ++ ',' :: tail).takeWhile Char.isDigit = Nat.toDigits 10 n := by
    rw [List.takeWhile_append_of_pos areDigits]
    simp
  have left : (Nat.toDigits 10 n ++ ',' :: tail).dropWhile Char.isDigit = ',' :: tail := by
    rw [List.dropWhile_append_of_pos areDigits]
    simp
  simp [readNat, taken, left, Number.digitsValue?_toDigits]

theorem run_readInt {n : Int} (comma : rest.head? = some ',') : readInt.run (int n ++ rest) = some (n, rest) := by
  cases n with
  | ofNat n =>
    obtain ⟨d, ds, digits⟩ := List.exists_cons_of_ne_nil (Nat.toDigits_ne_nil (n := n) (b := 10))
    have notSign : d ≠ '-' := by
      have isDigit : d.isDigit = true :=
        Nat.isDigit_of_mem_toDigits (by decide) (by decide) (digits ▸ List.mem_cons_self)
      rintro rfl
      cases isDigit
    have read := run_readNat (n := n) comma
    rw [int, Number.toList_toString_ofNat]
    rw [digits, List.cons_append] at read ⊢
    simp [readInt, notSign, read]
  | negSucc n =>
    rw [int, Number.toList_toString_negSucc]
    simp [readInt, run_readNat comma, Int.negSucc_eq]

/-! ### Lists -/

/-- The texts of the items do not begin like the end of a list. -/
def Opens (write : α → List Char) : Prop := ∀ a, ∃ c s, write a = c :: s ∧ c ≠ ']'

theorem length_lt_itemsAfter (write : α → List Char) (as : List α) : as.length < (itemsAfter write as).length := by
  induction as with
  | nil => simp [itemsAfter]
  | cons a as ih =>
    simp [itemsAfter] at ih ⊢
    omega

section List

variable {item : Reader α} {write : α → List Char} (reads : Reads item write)
include reads

theorem run_readItemsAfter {as : List α} {n : Nat} (enough : as.length < n) (rest : List Char) :
    (readItemsAfter item n).run (itemsAfter write as ++ rest) = some (as, rest) := by
  induction as generalizing n with
  | nil =>
    obtain ⟨n, rfl⟩ := Nat.exists_eq_add_one_of_ne_zero (Nat.ne_of_gt enough)
    have closed := run_expect "]" rest
    simp_all [readItemsAfter, itemsAfter]
  | cons a as ih =>
    obtain ⟨n, rfl⟩ := Nat.exists_eq_add_one_of_ne_zero (Nat.ne_zero_of_lt enough)
    have later := ih (Nat.lt_of_succ_lt_succ enough)
    have written : itemsAfter write (a :: as) ++ rest = ',' :: (write a ++ (itemsAfter write as ++ rest)) := by
      simp [itemsAfter]
    rw [written]
    simp [readItemsAfter, reads a, later]

theorem reads_list (opens : Opens write) : Reads (readList item) (list write) := by
  intro as rest
  cases as with
  | nil =>
    have opened := run_expect "[" (']' :: rest)
    simp_all [readList, list]
  | cons a as =>
    obtain ⟨c, s, written, notEnd⟩ := opens a
    have opened := run_expect "[" (write a ++ (itemsAfter write as ++ rest))
    have first := reads a (itemsAfter write as ++ rest)
    have enough : as.length < (write a ++ (itemsAfter write as ++ rest)).length := by
      have size := length_lt_itemsAfter write as
      simp only [List.length_append]
      omega
    have later := run_readItemsAfter reads enough rest
    rw [written] at opened first later
    simp_all [readList, list]

theorem reads_nullable (opens : Opens write) : Reads (readNullable item) (nullable write) := by
  intro as rest
  cases as with
  | none => simp [readNullable, nullable, -String.reduceToList]
  | some as =>
    have present : "null".toList.isPrefixOf? (list write as ++ rest) = none := by cases as <;> rfl
    simp [readNullable, nullable, run_takes_of_eq_none present, reads_list reads opens as rest]

theorem run_readUnlessEmpty (opens : Opens write) {name : String} (other : name.toList.isPrefixOf? rest = none)
    (as : List α) :
    (readUnlessEmpty name item).run (unlessEmpty name write as ++ rest) = some (as, rest) := by
  cases as with
  | nil => simp [readUnlessEmpty, unlessEmpty, run_takes_of_eq_none other]
  | cons a as => simp [readUnlessEmpty, unlessEmpty, reads_list reads opens (a :: as) rest]

end List

/-! ### What stands behind a field that can be left out -/

section Unless

variable {name t : String} {write : α → List Char} {as : List α}

theorem head?_unlessEmpty (comma : name.toList.head? = some ',') (behind : rest.head? = some ',') :
    (unlessEmpty name write as ++ rest).head? = some ',' := by
  unfold unlessEmpty
  split_ifs
  · exact behind
  · rw [List.append_assoc, List.head?_append, comma, Option.some_or]

theorem isPrefixOf?_unlessEmpty (other : ∀ s, t.toList.isPrefixOf? (name.toList ++ s) = none)
    (behind : t.toList.isPrefixOf? rest = none) : t.toList.isPrefixOf? (unlessEmpty name write as ++ rest) = none := by
  unfold unlessEmpty
  split_ifs
  · exact behind
  · rw [List.append_assoc, other]

end Unless

/-! ### Records -/

theorem opens_string : Opens string := fun _ => ⟨'"', _, rfl, by decide⟩

theorem opens_constant : Opens constant := fun _ => ⟨'\x7b', _, rfl, by decide⟩

theorem opens_finding : Opens finding := fun _ => ⟨'\x7b', _, rfl, by decide⟩

/-- An integer is read when the text behind it begins with a comma. -/
theorem run_readInt_append {t : String} (comma : t.toList.head? = some ',') (n : Int) (rest : List Char) :
    readInt.run (int n ++ (t.toList ++ rest)) = some (n, t.toList ++ rest) :=
  run_readInt (by rw [List.head?_append, comma, Option.some_or])

theorem reads_constant : Reads readConstant constant := by
  intro c rest
  unfold readConstant constant
  simp only [List.append_assoc, -String.reduceToList]
  rw [run_then (run_expect ..), run_then (run_readInt_append (by decide) ..), run_then (run_expect ..),
    run_then (run_readString ..), run_then (run_expect ..), run_then (run_readString ..), run_then (run_expect ..),
    run_then (run_readString ..), run_then (run_expect ..), run_then (run_readInt_append (by decide) ..),
    run_then (run_expect ..), run_then (run_readString ..), run_then (run_expect ..)]
  rfl

theorem reads_finding : Reads readFinding finding := by
  intro f rest
  have trace := reads_nullable run_readString opens_string
  unfold readFinding finding
  simp only [List.append_assoc, -String.reduceToList]
  rw [run_then (run_expect ..), run_then (run_readString ..), run_then (run_expect ..),
    run_then (run_readInt_append (by decide) ..), run_then (run_expect ..), run_then (run_readString ..),
    run_then (run_expect ..), run_then (run_readString ..), run_then (run_expect ..), run_then (trace ..),
    run_then (run_expect ..)]
  rfl

/-- A point in time that can be written is read back. -/
theorem run_readTime {saved : Option Timestamp} (written : saved.bind EncodeFault.of? = none) (rest : List Char) :
    readTime.run (time saved ++ rest) = some (saved, rest) := by
  cases saved with
  | none => simp [readTime, time]
  | some t =>
    have found : Timestamp.read? t.text = some t := by
      simp only [Option.bind_some, EncodeFault.of?] at written
      split_ifs at written with year zone
      simp only [Bool.or_eq_true, decide_eq_true_eq] at year
      exact Timestamp.read?_text (by omega) (by omega)
    have other : t.text ≠ "now" := by
      intro same
      rw [same] at found
      cases found
    simp [readTime, time, found, other]

/-- A record that can be written is read back. -/
theorem run_readRecord {r : Record} (written : r.saved.bind EncodeFault.of? = none) (rest : List Char) :
    readRecord.run (record r ++ rest) = some (r, rest) := by
  have texts {name : String} {rest : List Char} (other : name.toList.isPrefixOf? rest = none) (as : List String) :=
    run_readUnlessEmpty run_readString opens_string other as
  have constants := reads_nullable reads_constant opens_constant
  have findings {name : String} {rest : List Char} (other : name.toList.isPrefixOf? rest = none)
      (as : List FindingRecord) := run_readUnlessEmpty reads_finding opens_finding other as
  have notErrors (s : List Char) : ",\"aborted\":".toList.isPrefixOf? (",\"errors\":".toList ++ s) = none := rfl
  have notConstants (s : List Char) : ",\"aborted\":".toList.isPrefixOf? (",\"constants\":".toList ++ s) = none := rfl
  have notConstants' (s : List Char) : ",\"errors\":".toList.isPrefixOf? (",\"constants\":".toList ++ s) = none := rfl
  have notSaved (s : List Char) : ",\"findings\":".toList.isPrefixOf? (",\"saved\":".toList ++ s) = none := rfl
  unfold readRecord record
  simp only [List.append_assoc, -String.reduceToList]
  rw [run_then (run_expect ..), run_then (run_readString ..), run_then (run_expect ..), run_then (run_readString ..),
    run_then (run_expect ..), run_then (run_readBool ..), run_then (run_expect ..),
    run_then (run_readInt (head?_unlessEmpty rfl (head?_unlessEmpty rfl rfl))),
    run_then (texts (isPrefixOf?_unlessEmpty notErrors (notConstants _)) _),
    run_then (texts (notConstants' _) _), run_then (run_expect ..), run_then (constants ..),
    run_then (findings (notSaved _) _), run_then (run_expect ..), run_then (run_readTime written _),
    run_then (run_expect ..)]
  rfl

end SmaliTrace.Store.Json

namespace SmaliTrace.Store

/-- What can be encoded is decoded to the same record. -/
theorem Record.decode_encode {r : Record} {data : Text.Octets} (encoded : r.encode = .ok data) :
    Record.decode data = .ok r := by
  unfold Record.encode at encoded
  split at encoded
  · cases encoded
  · next written =>
    obtain rfl := Except.ok.inj encoded
    have read := Json.run_readRecord written []
    rw [List.append_nil] at read
    simp [Record.decode, Text.Octets.toText_ofString, read]

end SmaliTrace.Store
