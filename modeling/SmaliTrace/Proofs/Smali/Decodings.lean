import SmaliTrace.Proofs.Smali.Shape
import SmaliTrace.Proofs.Text.Cut

/-!
Decoding the lines of a body one after the other. A payload is open from the line that starts it to the line that ends
it, and nothing else gives entries; every other line that can be executed has the shape of its mnemonic; and a line
that cannot be decoded is no more to the lines behind it than one that is not there.
-/
namespace SmaliTrace.Smali

/-- The range of a handler names its three labels. -/
structure CatchRange.Complete (range : CatchRange) : Prop where
  start : range.start ≠ ""
  stop : range.stop ≠ ""
  handler : range.handler ≠ ""

/-- What an instruction of its family has. -/
structure Instruction.WellFormed (i : Instruction) : Prop where
  registers : i.kind.executable = true → ∀ r ∈ i.operation.registers, isRegister r.toList = true
  shaped : i.kind.executable = true → i.Shaped
  respelled : i.kind.executable = true → ∀ f : Register → Register,
    ({ i with operation := i.operation.mapRegisters f } : Instruction).Shaped
  handler : i.kind = .handler → ∃ range, i.operation = .handler range ∧ range.Complete

/-- The line that ends a payload. -/
def payloadEnd (payload : String) : List Char := ".end ".toList ++ Text.without "." payload.toList

namespace Decoder

/-- The decoder behind a line, as it is left whether or not the line can be decoded. -/
def behind (d : Decoder) (line : List Char) : Decoder :=
  match (read line).run d with
  | .ok _ next => next
  | .error _ next => next

/-- What the decoder makes of a line. -/
def decoding (d : Decoder) (line : List Char) : Except DecodeError Instruction :=
  match (read line).run d with
  | .ok i _ => .ok i
  | .error e _ => .error e

/-- The decoder behind the lines. -/
def after (d : Decoder) (lines : List (List Char)) : Decoder := lines.foldl behind d

/-- What the decoder makes of the lines. -/
def decodings (d : Decoder) : List (List Char) → List (Except DecodeError Instruction)
  | [] => []
  | line :: rest => d.decoding line :: (d.behind line).decodings rest

/-- The payload was started by an earlier line, and all that was decoded since is one of its entries, or blank. -/
def InPayload (decoded : List (Except DecodeError Instruction)) (n : Nat) (payload : String) : Prop :=
  ∃ m < n, ∃ opening, decoded[m]? = some (.ok opening) ∧ opening.kind = .dataStart ∧ opening.op = payload ∧
    ∀ k i, m < k → k < n → decoded[k]? = some (.ok i) → i.kind = .data ∨ i.text = ""

variable {d d' : Decoder} {i : Instruction} {text line : List Char} {lines : List (List Char)} {n : Nat}

/-! ### What is written to the decoder -/

/-- The outcome with the decoder that is left: it is only another one if the line can be decoded. -/
def leaving (d : Decoder) : Except DecodeError (Instruction × Decoder) → EStateM.Result DecodeError Decoder Instruction
  | .ok (i, next) => .ok i next
  | .error e => .error e d

theorem run_giving (word : String) (text : List Char) (operation : Except DecodeError Operation) (d : Decoder) :
    (giving word text operation).run d =
      d.leaving (operation.map fun operation => (⟨word, operation, String.ofList text⟩, d)) := by
  cases operation <;> rfl

theorem run_readInside (text : List Char) (d : Decoder) :
    (readInside text).run d = .ok ⟨"", .directive, String.ofList text⟩ (d.insideAnnotation text) := by
  unfold readInside insideAnnotation
  split_ifs <;> rfl

theorem run_readEntry (payload : String) (text : List Char) (d : Decoder) :
    (readEntry payload text).run d = d.leaving (if text = payloadEnd payload then
      .ok (⟨String.ofList text, .dataEnd, String.ofList text⟩, { d with payload := none })
      else (decodeEntry payload text).map fun operation => (⟨"", operation, String.ofList text⟩, d)) := by
  unfold readEntry payloadEnd
  split_ifs
  · rfl
  · exact run_giving ..

theorem run_readPlain (text : List Char) (d : Decoder) : (readPlain text).run d = d.leaving (d.decodePlain text) := by
  unfold readPlain decodePlain
  split
  · rfl
  · split_ifs
    · exact run_giving ..
    · rfl
    · rfl
    · exact run_giving ..
    · exact run_giving ..

/-- A line that is read is decoded, and nothing has been written to the decoder if it cannot be. -/
theorem run_read (line : List Char) (d : Decoder) : (read line).run d = d.leaving (d.decode line) := by
  unfold read decode
  by_cases blank : (Text.trim (stripComment line)).isEmpty = true
  · simp only [blank, if_true]
    rfl
  · by_cases inside : 0 < d.annotations
    · simp only [blank, inside, if_false, if_true, Bool.false_eq_true, EStateM.run_bind, EStateM.run_get]
      exact run_readInside ..
    · simp only [blank, inside, if_false, Bool.false_eq_true, EStateM.run_bind, EStateM.run_get]
      cases d.payload with
      | none => exact run_readPlain ..
      | some payload => exact run_readEntry ..

theorem decoding_eq (d : Decoder) (line : List Char) : d.decoding line = (d.decode line).map Prod.fst := by
  rw [decoding, run_read]
  cases d.decode line <;> rfl

/-! ### One line -/

/-- What a line that is decoded is to the decoder, and what it leaves of it. -/
inductive Reads (d : Decoder) (i : Instruction) : Decoder → Prop
  | blank (blank : i.text = "") (kind : i.kind = .directive) : Reads d i d
  | aside (next : Decoder) (outside : d.payload = none ∨ 0 < d.annotations) (kept : next.payload = d.payload)
      (kind : i.kind = .directive) : Reads d i next
  | entry (payload : String) (isOpen : d.payload = some payload) (kind : i.kind = .data)
      (goesOn : i.text.toList ≠ payloadEnd payload) : Reads d i d
  | close (payload : String) (isOpen : d.payload = some payload) (kind : i.kind = .dataEnd)
      (ends : i.text.toList = payloadEnd payload) : Reads d i { d with payload := none }
  | opening (outside : d.annotations = 0) (kind : i.kind = .dataStart) : Reads d i { d with payload := some i.op }
  | label (outside : d.payload = none) (kind : i.kind = .label) : Reads d i d
  | handler (outside : d.payload = none) (range : CatchRange) (does : i.operation = .handler range)
      (complete : range.Complete) : Reads d i d
  | instruction (outside : d.payload = none) (executable : i.kind.executable = true)
      (registers : ∀ r ∈ i.operation.registers, isRegister r.toList = true) (shaped : i.Shaped)
      (respelled : ∀ f : Register → Register,
        ({ i with operation := i.operation.mapRegisters f } : Instruction).Shaped) : Reads d i d

private theorem reads_of_map {e : Except DecodeError Operation} {f : Operation → Instruction × Decoder}
    (decoded : e.map f = .ok (i, d'))
    (reads : ∀ operation, e = .ok operation → Reads d (f operation).1 (f operation).2) : Reads d i d' := by
  cases e with
  | error e => simp [Except.map] at decoded
  | ok operation =>
    have made : f operation = (i, d') := by simpa [Except.map] using decoded
    simpa [made] using reads operation rfl

theorem payload_inside {next : Decoder} (moved : next = d.insideAnnotation text) : next.payload = d.payload := by
  subst moved
  unfold insideAnnotation
  split
  · rfl
  · split <;> rfl

theorem kind_of_decodeEntry {payload : String} {operation : Operation}
    (decoded : decodeEntry payload text = .ok operation) : operation.kind = .data := by
  unfold decodeEntry at decoded
  repeat' split at decoded
  all_goals first
    | (cases decoded; rfl)
    | simp [fail] at decoded

theorem kind_of_decodeDirective {operation : Operation} (decoded : decodeDirective text = .ok operation) :
    operation.kind = .directive := by
  unfold decodeDirective at decoded
  repeat' split at decoded
  all_goals first
    | (cases decoded; rfl)
    | simp [fail] at decoded

theorem complete_of_parseTryRange {type : String} {s : List Char} {range : CatchRange}
    (parsed : parseTryRange text type s = .ok range) : range.Complete := by
  unfold parseTryRange at parsed
  split at parsed
  · split at parsed
    · simp [fail] at parsed
    · split at parsed
      · dsimp only at parsed
        split at parsed
        · simp [fail] at parsed
        · next complete =>
          cases parsed
          simp only [Bool.or_eq_true, decide_eq_true_eq, not_or] at complete
          exact ⟨complete.1.1, complete.1.2, complete.2⟩
      · simp [fail] at parsed
  · simp [fail] at parsed

theorem complete_of_decodeCatch {operation : Operation} (decoded : decodeCatch text = .ok operation) :
    ∃ range, operation = .handler range ∧ range.Complete := by
  have ofParsed {type : String} {s : List Char}
      (parsed : (parseTryRange text type s).map .handler = .ok operation) :
      ∃ range, operation = .handler range ∧ range.Complete := by
    cases made : parseTryRange text type s with
    | error e => simp [made, Except.map] at parsed
    | ok range =>
      rw [made] at parsed
      cases parsed
      exact ⟨range, rfl, complete_of_parseTryRange made⟩
  unfold decodeCatch at decoded
  dsimp only at decoded
  split at decoded
  · split at decoded
    · simp [fail] at decoded
    · exact ofParsed decoded
  · split at decoded
    · exact ofParsed decoded
    · simp [fail] at decoded

theorem reads_of_decodePlain (closed : d.payload = none) (calm : d.annotations = 0)
    (decoded : d.decodePlain text = .ok (i, d')) : Reads d i d' := by
  unfold decodePlain at decoded
  dsimp only at decoded
  split at decoded
  · cases decoded
    exact .label closed rfl
  · split at decoded
    · refine reads_of_map decoded fun operation made => ?_
      obtain ⟨range, does, complete⟩ := complete_of_decodeCatch made
      exact .handler closed range does complete
    · split at decoded
      · cases decoded
        exact .opening calm rfl
      · split at decoded
        · cases decoded
          exact .aside _ (.inl closed) rfl rfl
        · split at decoded
          · exact reads_of_map decoded fun operation made =>
              .aside d (.inl closed) rfl (kind_of_decodeDirective made)
          · refine reads_of_map decoded fun operation made => ?_
            obtain ⟨registers, shaped⟩ := shaped_of_decodeInstruction made
            have shaped' := shaped id (String.ofList text)
            rw [Operation.mapRegisters_id] at shaped'
            exact .instruction closed (executable_of_classify? shaped'.family) registers shaped' fun f => shaped f _

theorem reads_of_decode (decoded : d.decode line = .ok (i, d')) : Reads d i d' := by
  unfold decode at decoded
  dsimp only at decoded
  split at decoded
  · next blank =>
    cases decoded
    exact .blank (by simpa using blank) rfl
  · split at decoded
    · next inside =>
      cases decoded
      exact .aside _ (.inr inside) (payload_inside rfl) rfl
    · next outside =>
      split at decoded
      · next payload isOpen =>
        split at decoded
        · next ends =>
          cases decoded
          exact .close payload isOpen rfl (String.toList_ofList.trans ends)
        · next goesOn =>
          refine reads_of_map decoded fun operation made => ?_
          exact .entry payload isOpen (kind_of_decodeEntry made) fun ends =>
            goesOn (String.toList_ofList.symm.trans ends)
      · next closed => exact reads_of_decodePlain closed (Nat.eq_zero_of_not_pos outside) decoded

theorem Reads.wellFormed (reads : Reads d i d') : i.WellFormed := by
  have ofKind {kind : Kind} (isKind : i.kind = kind) (plain : kind.executable = false) (other : kind ≠ .handler) :
      i.WellFormed := by
    have idle : i.kind.executable ≠ true := by simp [isKind, plain]
    exact ⟨(absurd · idle), (absurd · idle), (absurd · idle),
      fun isHandler => absurd (isKind.symm.trans isHandler) other⟩
  cases reads with
  | blank _ kind => exact ofKind kind rfl (by decide)
  | aside _ _ _ kind => exact ofKind kind rfl (by decide)
  | entry _ _ kind => exact ofKind kind rfl (by decide)
  | close _ _ kind => exact ofKind kind rfl (by decide)
  | opening _ kind => exact ofKind kind rfl (by decide)
  | label _ kind => exact ofKind kind rfl (by decide)
  | handler _ range does complete =>
    have idle : i.kind.executable ≠ true := by simp [Instruction.kind, does, Operation.kind, Kind.executable]
    exact ⟨(absurd · idle), (absurd · idle), (absurd · idle), fun _ => ⟨range, does, complete⟩⟩
  | instruction _ executable registers shaped respelled =>
    refine ⟨fun _ => registers, fun _ => shaped, fun _ => respelled, fun isHandler => ?_⟩
    rw [isHandler] at executable
    cases executable

/-! ### One line after the other -/

theorem behind_of_ok (decoded : d.decode line = .ok (i, d')) : d.behind line = d' := by
  rw [behind, run_read, decoded, leaving]

theorem behind_of_error {e : DecodeError} (failed : d.decode line = .error e) : d.behind line = d := by
  rw [behind, run_read, failed, leaving]

theorem after_take_succ (isLine : lines[n]? = some line) :
    d.after (lines.take (n + 1)) = (d.after (lines.take n)).behind line := by
  rw [after, List.take_add_one, isLine, List.foldl_append]
  rfl

/-- Each line is decoded by what the decoder is behind the lines before it. -/
theorem getElem?_decodings (d : Decoder) (lines : List (List Char)) (n : Nat) :
    (d.decodings lines)[n]? = lines[n]?.map fun line => ((d.after (lines.take n)).decode line).map Prod.fst := by
  induction lines generalizing d n with
  | nil => rfl
  | cons line rest ih =>
    cases n with
    | zero => exact congrArg some (decoding_eq d line)
    | succ n => exact ih (d.behind line) n

theorem decode_of_getElem?_decodings {decoded : Except DecodeError Instruction}
    (isDecoded : (d.decodings lines)[n]? = some decoded) :
    ∃ line, lines[n]? = some line ∧ ((d.after (lines.take n)).decode line).map Prod.fst = decoded := by
  rw [getElem?_decodings] at isDecoded
  exact Option.map_eq_some_iff.mp isDecoded

theorem reads_of_getElem?_decodings (isDecoded : (d.decodings lines)[n]? = some (.ok i)) :
    Reads (d.after (lines.take n)) i (d.after (lines.take (n + 1))) := by
  obtain ⟨line, isLine, decoded⟩ := decode_of_getElem?_decodings isDecoded
  rw [after_take_succ isLine]
  cases made : (d.after (lines.take n)).decode line with
  | error e => simp [made, Except.map] at decoded
  | ok made' =>
    obtain ⟨i', d'⟩ := made'
    rw [made] at decoded
    cases decoded
    rw [behind_of_ok made]
    exact reads_of_decode made

theorem after_take_succ_of_error {e : DecodeError} (isDecoded : (d.decodings lines)[n]? = some (.error e)) :
    d.after (lines.take (n + 1)) = d.after (lines.take n) := by
  obtain ⟨line, isLine, decoded⟩ := decode_of_getElem?_decodings isDecoded
  rw [after_take_succ isLine]
  cases made : (d.after (lines.take n)).decode line with
  | ok made' => simp [made, Except.map] at decoded
  | error e' => exact behind_of_error made

/-- Without a line that cannot be decoded the others are decoded as they are with it. -/
theorem decodings_eraseIdx {e : DecodeError} (isDecoded : (d.decodings lines)[n]? = some (.error e)) :
    d.decodings (lines.eraseIdx n) = (d.decodings lines).eraseIdx n := by
  induction lines generalizing d n with
  | nil => rfl
  | cons line rest ih =>
    cases n with
    | zero =>
      have failed : (d.decode line).map Prod.fst = .error e := (decoding_eq d line).symm.trans (Option.some.inj isDecoded)
      cases made : d.decode line with
      | ok made' => simp [made, Except.map] at failed
      | error e' => rw [decodings, behind_of_error made, List.eraseIdx_zero, List.eraseIdx_zero]; rfl
    | succ n => exact congrArg (d.decoding line :: ·) (ih isDecoded)

/-! ### Payloads -/

theorem InPayload.succ {decoded : List (Except DecodeError Instruction)} {payload : String}
    (inside : InPayload decoded n payload) (goesOn : ∀ i, decoded[n]? = some (.ok i) → i.kind = .data ∨ i.text = "") :
    InPayload decoded (n + 1) payload := by
  obtain ⟨m, earlier, opening, isOpening, kind, op, between⟩ := inside
  refine ⟨m, Nat.lt_succ_of_lt earlier, opening, isOpening, kind, op, fun k i later within isDecoded => ?_⟩
  rcases Nat.lt_succ_iff_lt_or_eq.mp within with before | rfl
  · exact between k i later before isDecoded
  · exact goesOn i isDecoded

/-- If the decoder has an open payload, an earlier line started it, and no annotation is open. -/
def Tracks (decoded : List (Except DecodeError Instruction)) (n : Nat) (d : Decoder) : Prop :=
  ∀ payload, d.payload = some payload → d.annotations = 0 ∧ InPayload decoded n payload

variable {decoded : List (Except DecodeError Instruction)}

theorem Tracks.stay (tracks : Tracks decoded n d)
    (goesOn : ∀ i, decoded[n]? = some (.ok i) → i.kind = .data ∨ i.text = "") : Tracks decoded (n + 1) d :=
  fun payload isOpen => ⟨(tracks payload isOpen).1, (tracks payload isOpen).2.succ goesOn⟩

theorem Tracks.step (tracks : Tracks decoded n d) (isDecoded : decoded[n]? = some (.ok i)) (reads : Reads d i d') :
    Tracks decoded (n + 1) d' := by
  have closed (isClosed : d'.payload = none) : Tracks decoded (n + 1) d' := fun _ isOpen => by
    cases isClosed.symm.trans isOpen
  have only {j : Instruction} (isLine : decoded[n]? = some (.ok j)) : j = i := by
    cases isDecoded.symm.trans isLine
    rfl
  cases reads with
  | blank blank _ => exact tracks.stay fun j isLine => .inr (only isLine ▸ blank)
  | aside _ outside kept _ =>
    rcases outside with isClosed | inside
    · exact closed (kept.trans isClosed)
    · intro payload isOpen
      have calm := (tracks payload (kept ▸ isOpen)).1
      omega
  | entry payload _ kind _ => exact tracks.stay fun j isLine => .inl (only isLine ▸ kind)
  | close => exact closed rfl
  | opening outside kind =>
    intro payload isOpen
    refine ⟨outside, n, Nat.lt_succ_self n, i, isDecoded, kind, Option.some.inj isOpen, fun k j later within => ?_⟩
    omega
  | label outside => exact closed outside
  | handler outside => exact closed outside
  | instruction outside => exact closed outside

/-- The decoder tracks its payload along every sequence of lines. -/
theorem tracks_after (lines : List (List Char)) (n : Nat) :
    Tracks (decodings {} lines) n (after {} (lines.take n)) := by
  induction n with
  | zero => exact fun _ isOpen => by cases isOpen
  | succ n ih =>
    cases isDecoded : (decodings {} lines)[n]? with
    | none =>
      have done : lines[n]? = none := by simpa [getElem?_decodings] using isDecoded
      rw [List.take_add_one, done, Option.toList_none, List.append_nil]
      exact ih.stay fun i isLine => by cases isDecoded.symm.trans isLine
    | some decoded =>
      cases decoded with
      | error e =>
        rw [after_take_succ_of_error isDecoded]
        exact ih.stay fun i isLine => by cases isDecoded.symm.trans isLine
      | ok i => exact ih.step isDecoded (reads_of_getElem?_decodings isDecoded)

theorem Reads.exists_isOpen (reads : Reads d i d') (kind : i.kind = .data ∨ i.kind = .dataEnd) :
    ∃ payload, d.payload = some payload ∧ (i.kind = .dataEnd ↔ i.text.toList = payloadEnd payload) := by
  have other {kind' : Kind} (isKind : i.kind = kind') (noData : kind' ≠ .data) (noEnd : kind' ≠ .dataEnd) :
      ∃ payload, d.payload = some payload ∧ (i.kind = .dataEnd ↔ i.text.toList = payloadEnd payload) := by
    rw [isKind] at kind
    exact absurd kind (not_or.mpr ⟨noData, noEnd⟩)
  cases reads with
  | blank _ isKind => exact other isKind (by decide) (by decide)
  | aside _ _ _ isKind => exact other isKind (by decide) (by decide)
  | entry payload isOpen isKind goesOn =>
    exact ⟨payload, isOpen, fun isEnd => (by cases isKind.symm.trans isEnd), fun ends => absurd ends goesOn⟩
  | close payload isOpen isKind ends => exact ⟨payload, isOpen, fun _ => ends, fun _ => isKind⟩
  | opening _ isKind => exact other isKind (by decide) (by decide)
  | label _ isKind => exact other isKind (by decide) (by decide)
  | handler _ range does _ =>
    have isKind : i.kind = .handler := by rw [Instruction.kind, does]; rfl
    exact other isKind (by decide) (by decide)
  | instruction _ executable =>
    rcases kind with isKind | isKind <;> (rw [isKind] at executable; cases executable)

/-- Whatever lines a decoder is fed: entries and ends are only decoded between the start of a payload and its matching
end; what can be executed has the shape that its family and mnemonic ask for, before and after its registers are
respelled, and catches have their range; and a line that cannot be decoded leaves the decoder, and all that it decodes
then, as if the line were not there. -/
theorem decodings_wellFormed (lines : List (List Char)) :
    (∀ n i, (decodings {} lines)[n]? = some (.ok i) → i.WellFormed ∧
      (i.kind = .data ∨ i.kind = .dataEnd → ∃ payload, InPayload (decodings {} lines) n payload ∧
        (i.kind = .dataEnd ↔ i.text.toList = payloadEnd payload))) ∧
    ∀ n e, (decodings {} lines)[n]? = some (.error e) →
      after {} (lines.take (n + 1)) = after {} (lines.take n) ∧
      decodings {} (lines.eraseIdx n) = (decodings {} lines).eraseIdx n := by
  refine ⟨fun n i isDecoded => ?_, fun n e isDecoded => ?_⟩
  · have reads := reads_of_getElem?_decodings isDecoded
    refine ⟨reads.wellFormed, fun kind => ?_⟩
    obtain ⟨payload, isOpen, ends⟩ := reads.exists_isOpen kind
    exact ⟨payload, (tracks_after lines n payload isOpen).2, ends⟩
  · exact ⟨after_take_succ_of_error isDecoded, decodings_eraseIdx isDecoded⟩

/-- A table of a switch behind an instruction, and in the table a line that is no entry of it. -/
def switchLines : List (List Char) :=
  ["add-int/lit8 v1, v0, 0x1", ".packed-switch 0x0", ":one", "nop", ".end packed-switch"].map String.toList

theorem decodings_wellFormed_switch :
    (∃ i, (decodings {} switchLines)[0]? = some (.ok i) ∧ i.kind.executable = true ∧ i.Shaped) ∧
    (∃ i, (decodings {} switchLines)[2]? = some (.ok i) ∧ i.kind = .data ∧
      ∃ payload, InPayload (decodings {} switchLines) 2 payload) ∧
    ∃ e, (decodings {} switchLines)[3]? = some (.error e) ∧
      decodings {} (switchLines.eraseIdx 3) = (decodings {} switchLines).eraseIdx 3 := by
  obtain ⟨sound, failing⟩ := decodings_wellFormed switchLines
  obtain ⟨math, entry, stray⟩ :
      (decodings {} switchLines)[0]? =
        some (.ok ⟨"add-int/lit8", .literalMath "v1" "v0" "0x1", "add-int/lit8 v1, v0, 0x1"⟩) ∧
      (decodings {} switchLines)[2]? = some (.ok ⟨"", .data "" "one", ":one"⟩) ∧
      (decodings {} switchLines)[3]? = some (fail "nop".toList .unlabelledEntry) := by
    rw [switchLines, Text.map_toList_of_spelled (by repeat' constructor)]
    decide +kernel
  obtain ⟨payload, inside, -⟩ := (sound 2 _ entry).2 (.inl rfl)
  exact ⟨⟨_, math, rfl, (sound 0 _ math).1.shaped rfl⟩, ⟨_, entry, rfl, payload, inside⟩, _, stray,
    (failing 3 _ stray).2⟩

end Decoder
end SmaliTrace.Smali
