import Mathlib.Data.List.Sort
import SmaliTrace.Proofs.Graph.BreadthFirst
import SmaliTrace.Proofs.Store.Json
import SmaliTrace.Proofs.Store.Laws
import SmaliTrace.Store.Basic

/-!
Databases in the files of a working directory, with records as JSON texts, do what a store relies on. A path that a file
can be written at leads to the file once it is written, since no directory on the way has gone.
-/
namespace SmaliTrace.FileTree

variable {α : Type} {t : FileTree α} {place : List String} {content : α}

theorem file_put (t : FileTree α) (place : List String) (content : α) :
    entry? (t.put place content) place = some (.file content) := by
  have absent : (t.files.filter fun file => file.1 ≠ place).find? (fun file => file.1 = place) = none := by
    rw [List.find?_eq_none]
    rintro ⟨path, c⟩ member
    simpa using (List.mem_filter.mp member).2
  have found : (t.put place content).files.find? (fun file => file.1 = place) = some (place, content) := by
    change ((t.files.filter fun file => file.1 ≠ place) ++ [(place, content)]).find? _ = _
    rw [List.find?_append, absent, List.find?_singleton]
    simp
  unfold entry?
  rw [found]

/-- Writing a file makes no directory go away. -/
theorem directory_put {parts : List String} (isDirectory : t.entry? parts = some .directory)
    (other : parts ≠ place) : entry? (t.put place content) parts = some .directory := by
  unfold entry? at isDirectory
  split at isDirectory
  · simp at isDirectory
  · next none =>
    split at isDirectory
    · next named =>
      have none' : (t.put place content).files.find? (fun file => file.1 = parts) = Option.none := by
        rw [List.find?_eq_none] at none ⊢
        rintro ⟨path, c⟩ member
        rcases List.mem_append.mp member with old | new
        · exact none _ (List.mem_filter.mp old).1
        · cases List.mem_singleton.mp new
          simpa using Ne.symm other
      have named' : (t.put place content).hasDirectory parts = true := by
        simp only [hasDirectory, Bool.or_eq_true] at named ⊢
        rcases named with (empty | listed) | above
        · exact .inl (.inl empty)
        · exact .inl (.inr listed)
        · obtain ⟨⟨path, c⟩, member, below⟩ := List.any_eq_true.mp above
          refine .inr (List.any_eq_true.mpr ?_)
          by_cases same : path = place
          · exact ⟨(place, content), by simp [put], same ▸ below⟩
          · exact ⟨(path, c), by simp [put, member, same], below⟩
      unfold entry?
      rw [none', named', if_pos rfl]
    · simp at isDirectory

/-- A way down to where no directory stands stays the same when a file is written there. -/
theorem descend_put (free : t.entry? place ≠ some .directory) {start parts finish : List String}
    (leads : t.descend start parts = .ok finish) : (t.put place content).descend start parts = .ok finish := by
  induction parts generalizing start with
  | nil => simpa [descend] using leads
  | cons part rest ih =>
    rw [descend] at leads ⊢
    cases entry : t.entry? start with
    | none => simp [entry] at leads
    | some e =>
      cases e with
      | file c => simp [entry] at leads
      | directory =>
        have other : start ≠ place := by
          rintro rfl
          exact free entry
        rw [entry] at leads
        rw [directory_put entry other]
        dsimp only at leads ⊢
        split_ifs at leads ⊢ <;> exact ih leads

/-- A file can be written at a path that does not end in a slash and leads down to a file or to nothing. -/
theorem writable_eq_ok_iff {path : String} {old : Option α} :
    t.writable path = .ok (place, old) ↔ Text.endsWith "/" path.toList = false ∧
      ∃ parts, checkPath path = .ok parts ∧ t.descend [] parts = .ok place ∧ t.entry? place = old.map Entry.file := by
  unfold FileTree.writable
  by_cases slash : Text.endsWith "/" path.toList = true
  · simp only [slash, if_true, Bool.true_eq_false, false_and, iff_false]
    cases checked : checkPath path with
    | error fault => simp [bind, Except.bind]
    | ok parts =>
      cases leads : t.descend [] (parts.dropLast ++ ["."]) with
      | error fault => simp [bind, Except.bind, leads]
      | ok above => simp [bind, Except.bind, leads]
  · rw [Bool.not_eq_true] at slash
    simp only [slash, Bool.false_eq_true, if_false, true_and, locate]
    cases checked : checkPath path with
    | error fault => simp [bind, Except.bind]
    | ok parts =>
      cases leads : t.descend [] parts with
      | error fault => simp [bind, Except.bind, leads]
      | ok finish =>
        have same : (∃ parts', Except.ok parts = (Except.ok parts' : Except FileFault (List String)) ∧
            t.descend [] parts' = .ok place ∧ t.entry? place = old.map Entry.file) ↔
              finish = place ∧ t.entry? finish = old.map Entry.file := by
          constructor
          · rintro ⟨_, checked', leads', entry⟩
            obtain rfl := Except.ok.inj checked'
            obtain rfl := Except.ok.inj (leads.symm.trans leads')
            exact ⟨rfl, entry⟩
          · rintro ⟨rfl, entry⟩
            exact ⟨parts, rfl, leads, entry⟩
        rw [same]
        simp only [bind, Except.bind, leads]
        cases entry : t.entry? finish with
        | none => cases old <;> simp
        | some e =>
          cases e with
          | file c => cases old <;> simp
          | directory => cases old <;> simp

/-- A path that a file can be written at leads to the file once it is written. -/
theorem writable_put {path : String} {old : Option α} (writable : t.writable path = .ok (place, old)) (content : α) :
    (t.put place content).writable path = .ok (place, some content) := by
  obtain ⟨slash, parts, checked, leads, entry⟩ := writable_eq_ok_iff.mp writable
  have free : t.entry? place ≠ some .directory := by
    rw [entry]
    cases old <;> simp
  exact writable_eq_ok_iff.mpr ⟨slash, parts, checked, descend_put free leads, file_put t place content⟩

end SmaliTrace.FileTree

namespace SmaliTrace.Store
open SmaliTrace.Text

/-! ### Databases -/

namespace Database

variable {d d' : Database} {m : Octets → Option Octets} {key value : Octets}

/-- What the bucket of a database holds. -/
def contents (d : Database) : Contents :=
  d.bucket.map fun entries key => (entries.find? fun e => e.1 = key).map Prod.snd

theorem exists_bucket (holds : d.contents = some m) :
    ∃ entries, d.bucket = some entries ∧ m = fun key => (entries.find? fun e => e.1 = key).map Prod.snd := by
  obtain ⟨entries, bucket, same⟩ := Option.map_eq_some_iff.mp holds
  exact ⟨entries, bucket, same.symm⟩

theorem contents_createBucket (done : createBucket.run d = .ok () d') :
    d'.contents = some (d.contents.getD fun _ => none) := by
  cases done
  cases bucket : d.bucket with
  | none => simp [contents, bucket]
  | some entries => simp [contents, bucket]

theorem put_empty (value : Octets) (d d' : Database) : (put ⟨[]⟩ value).run d ≠ .ok () d' := by
  intro done
  cases done

theorem contents_put (holds : d.contents = some m) (done : (put key value).run d = .ok () d') :
    d'.contents = some (Function.update m key (some value)) := by
  obtain ⟨entries, bucket, rfl⟩ := exists_bucket holds
  change put key value d = _ at done
  simp only [put, bucket] at done
  split_ifs at done
  cases done
  refine congrArg some (funext fun key' => ?_)
  by_cases same : key' = key
  · simp [same]
  · have others : (entries.filter fun e => e.1 ≠ key).find? (fun e => e.1 = key') = entries.find? fun e => e.1 = key' := by
      rw [List.find?_filter]
      refine congrArg (fun found => entries.find? found) (funext fun e => ?_)
      by_cases here : e.1 = key'
      · simp [here, same]
      · simp [here]
    dsimp only
    rw [Function.update_of_ne same, List.find?_cons_of_neg (by simpa using Ne.symm same), others]

theorem get_eq (holds : d.contents = some m) (key : Octets) : d.get key = m key := by
  obtain ⟨entries, bucket, rfl⟩ := exists_bucket holds
  rw [get, bucket]
  rfl

theorem mem_keys_iff (holds : d.contents = some m) (key : Octets) : key ∈ d.keys ↔ (m key).isSome = true := by
  obtain ⟨entries, bucket, rfl⟩ := exists_bucket holds
  simp [keys, bucket]

theorem pairwise_keys (d : Database) : d.keys.Pairwise fun a b => a.bytes < b.bytes := by
  have sorted : d.keys.Pairwise fun a b => decide (a.bytes ≤ b.bytes) = true := by
    refine List.pairwise_mergeSort (fun a b c first second => ?_) (fun a b => ?_) _
    · exact decide_eq_true (Std.le_trans (of_decide_eq_true first) (of_decide_eq_true second))
    · simpa only [Bool.or_eq_true, decide_eq_true_eq] using Std.le_total
  have distinct : d.keys.Nodup := (List.mergeSort_perm _ _).nodup_iff.mpr (Graph.nodup_eraseDups _)
  refine (sorted.and distinct).imp fun {a b} both => ?_
  exact Std.lt_of_le_of_ne (of_decide_eq_true both.1) fun same => both.2 (congrArg Octets.mk same)

end Database

/-! ### Databases in files -/

/-- What can be told of the database in the file at a path. -/
def fileView (path : String) : engine.View where
  isOpen s := ∃ place d, s.current = some place ∧ s.files.writable path = .ok (place, some (.database d))
  isClosed s := s.current = none
  holds s :=
    match s.files.writable path with
    | .error _ => none
    | .ok (_, content) => (databaseOf (content.getD (.text ""))).toOption.bind Database.contents
  sees d := d.contents

theorem codec_lawful : codec.Lawful where
  refuses {r fault} bad := by
    change r.encode = _
    unfold Record.encode
    rw [show r.saved.bind EncodeFault.of? = some fault from bad]
  restores {r} good := by
    have encoded : r.encode = .ok (String.ofList (Json.record r)) := by
      unfold Record.encode
      rw [show r.saved.bind EncodeFault.of? = none from good]
    exact ⟨_, r, encoded, Record.decode_encode encoded, .refl r⟩

section File

variable {path : String} {s : Store} {place : List String} {d : Database}

theorem holds_of_writable {content : Option FileContent} (writable : s.files.writable path = .ok (place, content)) :
    (fileView path).holds s = (databaseOf (content.getD (.text ""))).toOption.bind Database.contents := by
  simp only [fileView, writable]

/-- The file holds a database that has been written to it. -/
theorem holds_put {content : Option FileContent} (writable : s.files.writable path = .ok (place, content))
    (current : Option (List String)) :
    (fileView path).holds ⟨s.files.put place (.database d), current⟩ = d.contents := by
  have written := FileTree.writable_put writable (.database d)
  exact holds_of_writable (s := ⟨s.files.put place (.database d), current⟩) written

theorem database_of_isOpen (isOpen : (fileView path).isOpen s) : ∃ place d, s.current = some place ∧
    s.files.writable path = .ok (place, some (.database d)) ∧ s.database = .ok (place, d) ∧
      (fileView path).holds s = d.contents := by
  obtain ⟨place, d, current, writable⟩ := isOpen
  obtain ⟨-, _, -, -, entry⟩ := FileTree.writable_eq_ok_iff.mp writable
  exact ⟨place, d, current, writable, by simp only [database, current, entry, Option.map_some],
    holds_of_writable writable⟩

theorem opening_openFile (isClosed : (fileView path).isClosed s) :
    (fileView path).Opening s ((engine.openFile path).run s) := by
  change (fileView path).Opening s (openFile path s)
  unfold openFile
  cases writable : s.files.writable path with
  | error fault => exact .refused isClosed rfl
  | ok found =>
    obtain ⟨place, content⟩ := found
    dsimp only
    cases held : databaseOf (content.getD (.text "")) with
    | error fault => exact .refused isClosed rfl
    | ok d =>
      refine .opened ⟨place, d, rfl, FileTree.writable_put writable _⟩ ?_
      rw [holds_put writable, holds_of_writable writable, held]
      rfl

theorem update_update (isOpen : (fileView path).isOpen s) (body : EStateM StoreError Database Unit) :
    (fileView path).Update s body ((engine.update body).run s) := by
  obtain ⟨place, d, current, writable, isDatabase, holds⟩ := database_of_isOpen isOpen
  change (fileView path).Update s body (update body s)
  unfold update
  rw [isDatabase]
  dsimp only
  cases ran : EStateM.run body d with
  | error e d' => exact .rolledBack holds.symm ran isOpen rfl
  | ok a d' =>
    exact .committed holds.symm ran ⟨place, d', current, FileTree.writable_put writable _⟩ (holds_put writable _)

end File

/-- Databases in files do what a store relies on. -/
theorem engine_lawful (path : String) : engine.Lawful (fileView path) path where
  closes s := ⟨rfl, rfl⟩
  opens := opening_openFile
  updates := update_update
  refuses {s} isClosed body := by
    change update body s = _
    simp only [update, database, show s.current = none from isClosed]
    rfl
  views {s} isOpen := by
    obtain ⟨place, d, -, -, isDatabase, holds⟩ := database_of_isOpen isOpen
    refine ⟨d, ?_, holds.symm⟩
    change s.database.map Prod.snd = _
    rw [isDatabase]
    rfl
  hides {s} isClosed := by
    change s.database.map Prod.snd = _
    simp only [database, show s.current = none from isClosed]
    rfl
  creates := Database.contents_createBucket
  needsKey := Database.put_empty
  puts := Database.contents_put
  gets := Database.get_eq
  lists {d m} sees := ⟨d.pairwise_keys, Database.mem_keys_iff sees⟩

end SmaliTrace.Store
