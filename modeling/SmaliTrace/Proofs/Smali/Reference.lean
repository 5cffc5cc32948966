import SmaliTrace.Proofs.Text.Cut
import SmaliTrace.Smali.Reference

/-!
References and descriptors are read as they are written. A list of descriptors can be cut up in one way only, and a
reference is accepted exactly if it is the text of one whose parts do not hold the marks that they are cut at.
-/
namespace SmaliTrace.Smali

variable {whole s type rest : List Char} {types : List String}

/-! ### Descriptors -/

/-- The text is the descriptor of a type: a primitive type, a class, or an array of such a type. -/
inductive IsDescriptor : List Char → Prop
  | primitive {c : Char} (isLetter : c ∈ primitiveLetters) : IsDescriptor [c]
  | cls {name : List Char} (closed : ';' ∉ name) : IsDescriptor ('L' :: name ++ [';'])
  | array {element : List Char} (isElement : IsDescriptor element) : IsDescriptor ('[' :: element)

/-- A descriptor is split off exactly if the text starts with it. -/
theorem splitDescriptor_eq_ok_iff :
    splitDescriptor whole s = .ok (type, rest) ↔ IsDescriptor type ∧ s = type ++ rest := by
  constructor
  · intro split
    fun_induction splitDescriptor whole s generalizing type with
    | case1 => cases split
    | case2 s ih =>
      cases found : splitDescriptor whole s with
      | error e => simp [found, bind, Except.bind] at split
      | ok parts =>
        simp only [found, bind, Except.bind, Except.ok.injEq, Prod.mk.injEq] at split
        obtain ⟨rfl, rfl⟩ := split
        obtain ⟨isElement, isRest⟩ := ih found
        exact ⟨.array isElement, congrArg _ isRest⟩
    | case3 => cases split
    | case4 s name after found =>
      cases split
      obtain ⟨isText, closed⟩ := Text.cut?_singleton_eq_some_iff.mp found
      exact ⟨.cls closed, by rw [isText, List.append_assoc]; rfl⟩
    | case5 c s _ _ isLetter =>
      cases split
      exact ⟨.primitive isLetter, rfl⟩
    | case6 => cases split
  · rintro ⟨isDescriptor, rfl⟩
    induction isDescriptor with
    | @primitive c isLetter =>
      have plain : c ≠ '[' ∧ c ≠ 'L' := by
        constructor <;> (rintro rfl; exact absurd isLetter (by decide))
      rw [List.singleton_append, splitDescriptor, if_pos isLetter]
      · exact plain.1
      · exact plain.2
    | @cls name closed =>
      rw [List.cons_append, List.cons_append, List.append_assoc, splitDescriptor, List.singleton_append,
        Text.cut?_append_cons closed]
      rfl
    | array _ ih =>
      rw [List.cons_append, splitDescriptor, ih]
      rfl

theorem IsDescriptor.ne_nil (isDescriptor : IsDescriptor type) : type ≠ [] := by
  cases isDescriptor <;> exact List.cons_ne_nil _ _

theorem splitTypesFrom_eq_ok_iff :
    splitTypesFrom whole s = .ok types ↔ (∀ t ∈ types, IsDescriptor t.toList) ∧ s = types.flatMap String.toList := by
  constructor
  · intro split
    fun_induction splitTypesFrom whole s generalizing types with
    | case1 s empty =>
      cases split
      exact ⟨by simp, List.isEmpty_iff.mp empty⟩
    | case2 => cases split
    | case3 s _ type rest found _ ih =>
      cases others : splitTypesFrom whole rest with
      | error e => simp [others, bind, Except.bind] at split
      | ok types' =>
        simp only [others, bind, Except.bind, Except.ok.injEq] at split
        subst split
        obtain ⟨isDescriptor, isText⟩ := splitDescriptor_eq_ok_iff.mp found
        obtain ⟨areDescriptors, isRest⟩ := ih others
        refine ⟨List.forall_mem_cons.mpr ⟨?_, areDescriptors⟩, ?_⟩
        · rw [String.toList_ofList]
          exact isDescriptor
        · rw [List.flatMap_cons, String.toList_ofList, ← isRest, isText]
  · rintro ⟨areDescriptors, rfl⟩
    induction types with
    | nil => rw [splitTypesFrom]; rfl
    | cons t types ih =>
      obtain ⟨isDescriptor, areDescriptors⟩ := List.forall_mem_cons.mp areDescriptors
      have first : splitDescriptor whole (t.toList ++ types.flatMap String.toList) =
          .ok (t.toList, types.flatMap String.toList) := splitDescriptor_eq_ok_iff.mpr ⟨isDescriptor, rfl⟩
      have more : ¬ (t.toList ++ types.flatMap String.toList).isEmpty := by simp [isDescriptor.ne_nil]
      rw [List.flatMap_cons, splitTypesFrom, if_neg more]
      split
      · next e failed =>
        rw [first] at failed
        cases failed
      · next type rest found =>
        rw [first] at found
        cases found
        rw [ih areDescriptors, String.ofList_toList]
        rfl

/-- The types of a descriptor are its text, cut up. -/
theorem join_of_splitTypesFrom (split : splitTypesFrom whole s = .ok types) : String.join types = String.ofList s := by
  apply String.toList_injective
  rw [String.toList_join, String.toList_ofList, (splitTypesFrom_eq_ok_iff.mp split).2]

/-! ### Fields -/

/-- The mark between the owner and the member of a reference. -/
def arrow : List Char := "->".toList

theorem arrow_eq : arrow = ['-', '>'] := String.toList_ofList

theorem cut?_arrow_eq_some_iff {owner member : List Char} :
    Text.cut? "->".toList s = some (owner, member) ↔ s = owner ++ arrow ++ member ∧ ¬ arrow <:+: owner := by
  rw [arrow_eq, ← Text.cut?_pair_eq_some_iff (by decide), ← arrow_eq, arrow]

/-- The owner ends at the first arrow, and the type starts behind the last colon. -/
structure FieldRef.Readable (f : FieldRef) : Prop where
  owned : f.owner ≠ ""
  owner : ¬ arrow <:+: f.owner.toList
  type : ':' ∉ f.type.toList

theorem FieldRef.toList_text (f : FieldRef) :
    f.text.toList = f.owner.toList ++ arrow ++ (f.name.toList ++ ':' :: f.type.toList) := by
  simp [text, key, arrow]

/-- A field reference is accepted exactly if it is the text of a readable one. -/
theorem FieldRef.parse_eq_ok_iff {f : FieldRef} : parse s = .ok f ↔ f.Readable ∧ s = f.text.toList := by
  rw [toList_text]
  constructor
  · intro read
    unfold parse at read
    split at read
    · cases read
    · next owner member cut =>
      split at read
      · cases read
      · next owned =>
        split at read
        · cases read
        · next name type cutLast =>
          cases read
          obtain ⟨isText, noArrow⟩ := cut?_arrow_eq_some_iff.mp cut
          obtain ⟨isMember, noColon⟩ := Text.cutLast?_eq_some_iff.mp cutLast
          refine ⟨⟨?_, ?_, ?_⟩, ?_⟩
          · simpa using owned
          · rwa [String.toList_ofList]
          · rwa [String.toList_ofList]
          · simp only [String.toList_ofList]
            rw [isText, isMember]
  · rintro ⟨readable, rfl⟩
    have owned : ¬ f.owner.toList.isEmpty := by simpa using readable.owned
    unfold parse
    rw [cut?_arrow_eq_some_iff.mpr ⟨rfl, readable.owner⟩]
    dsimp only
    rw [if_neg owned, Text.cutLast?_eq_some_iff.mpr ⟨rfl, readable.type⟩]
    simp only [String.ofList_toList]

/-! ### Methods -/

/-- The reference without its owner, as declarations have it. -/
def MethodRef.memberText (r : MethodRef) : String := r.name ++ "(" ++ r.paramText ++ ")" ++ r.result

/-- The name ends at the first parenthesis, which is an opening one, and the parameters are descriptors that end at
the first closing one. -/
structure MethodRef.ReadableMember (r : MethodRef) : Prop where
  named : r.name ≠ ""
  name : '(' ∉ r.name.toList ∧ ')' ∉ r.name.toList
  params : ∀ t ∈ r.params, IsDescriptor t.toList ∧ ')' ∉ t.toList

theorem MethodRef.toList_memberText (r : MethodRef) : r.memberText.toList =
    r.name.toList ++ '(' :: (r.params.flatMap String.toList ++ ')' :: r.result.toList) := by
  simp [memberText, paramText, String.toList_join]

theorem MethodRef.toList_text (r : MethodRef) : r.text.toList = r.owner.toList ++ arrow ++ r.memberText.toList := by
  simp [text, signature, memberText, arrow]

theorem MethodRef.parseMember_eq_ok_iff {owner : List Char} {r : MethodRef} : parseMember owner s = .ok r ↔
    r.owner = String.ofList owner ∧ r.ReadableMember ∧ s = r.memberText.toList := by
  rw [toList_memberText]
  constructor
  · intro read
    unfold parseMember at read
    split at read
    · cases read
    · next name inside cut =>
      split at read
      · cases read
      · next named =>
        split at read
        · cases read
        · next params result cut' =>
          cases split : splitTypes params with
          | error e => simp [split, bind, Except.bind] at read
          | ok types =>
            simp only [split, bind, Except.bind, Except.ok.injEq] at read
            subst read
            obtain ⟨isText, noOpening⟩ := Text.cut?_singleton_eq_some_iff.mp cut
            obtain ⟨isInside, noClosing⟩ := Text.cut?_singleton_eq_some_iff.mp cut'
            obtain ⟨areDescriptors, isParams⟩ := splitTypesFrom_eq_ok_iff.mp split
            simp only [Bool.or_eq_true, List.isEmpty_iff, List.contains_iff_mem, not_or] at named
            refine ⟨rfl, ⟨?_, ?_, fun t inside => ⟨areDescriptors t inside, fun closing => ?_⟩⟩, ?_⟩
            · simpa using named.1
            · rw [String.toList_ofList]
              exact ⟨noOpening, named.2⟩
            · exact noClosing (isParams ▸ List.mem_flatMap.mpr ⟨t, inside, closing⟩)
            · simp only [String.toList_ofList]
              rw [← isParams, ← isInside, isText]
  · rintro ⟨isOwner, readable, rfl⟩
    have named : ¬ (r.name.toList.isEmpty || r.name.toList.contains ')') := by
      simpa using ⟨readable.named, readable.name.2⟩
    have noClosing : ')' ∉ r.params.flatMap String.toList := by
      rintro inside
      obtain ⟨t, isParam, closing⟩ := List.mem_flatMap.mp inside
      exact (readable.params t isParam).2 closing
    have split : splitTypes (r.params.flatMap String.toList) = .ok r.params :=
      splitTypesFrom_eq_ok_iff.mpr ⟨fun t isParam => (readable.params t isParam).1, rfl⟩
    unfold parseMember
    rw [Text.cut?_append_cons readable.name.1]
    dsimp only
    rw [if_neg named, Text.cut?_append_cons noClosing]
    dsimp only
    rw [split, ← isOwner]
    simp only [bind, Except.bind, String.ofList_toList]

/-- A method reference is accepted exactly if it is the text of a readable one, of which an empty owner and the arrow
may be missing. -/
theorem MethodRef.parse_eq_ok_iff {r : MethodRef} : parse s = .ok r ↔ r.ReadableMember ∧
    (¬ arrow <:+: r.owner.toList ∧ s = r.text.toList ∨ r.owner = "" ∧ ¬ arrow <:+: s ∧ s = r.memberText.toList) := by
  unfold parse
  cases cut : Text.cut? "->".toList s with
  | none =>
    have noArrow : ¬ arrow <:+: s := Text.cut?_eq_none_iff.mp cut
    rw [parseMember_eq_ok_iff]
    constructor
    · rintro ⟨isOwner, readable, isMember⟩
      exact ⟨readable, .inr ⟨isOwner, noArrow, isMember⟩⟩
    · rintro ⟨readable, ⟨-, isText⟩ | ⟨isOwner, -, isMember⟩⟩
      · exact absurd ⟨_, _, (isText.trans r.toList_text).symm⟩ noArrow
      · exact ⟨isOwner, readable, isMember⟩
  | some parts =>
    obtain ⟨owner, member⟩ := parts
    obtain ⟨isText, noArrow⟩ := cut?_arrow_eq_some_iff.mp cut
    dsimp only
    rw [parseMember_eq_ok_iff]
    constructor
    · rintro ⟨isOwner, readable, isMember⟩
      have isOwner' : r.owner.toList = owner := by rw [isOwner, String.toList_ofList]
      refine ⟨readable, .inl ⟨isOwner' ▸ noArrow, ?_⟩⟩
      rw [toList_text, isOwner', ← isMember, isText]
    · rintro ⟨readable, ⟨noArrow', isText'⟩ | ⟨-, noArrow', -⟩⟩
      · have same := cut.symm.trans (cut?_arrow_eq_some_iff.mpr ⟨isText'.trans r.toList_text, noArrow'⟩)
        cases same
        exact ⟨String.ofList_toList.symm, readable, rfl⟩
      · exact absurd ⟨_, _, isText.symm⟩ noArrow'

/-- Descriptor lists and references are read back from their texts. A list is accepted exactly if it is made of
descriptors, and cut up into these; a method reference that was read is read from its own text again, which is the text
that it was read from unless that left the owner out; and a field reference is read from its own text only. -/
theorem references_read_back :
    (∀ (s : List Char) (types : List String), splitTypes s = .ok types ↔
      (∀ t ∈ types, IsDescriptor t.toList) ∧ String.join types = String.ofList s) ∧
    (∀ (s : List Char) (r : MethodRef), MethodRef.parse s = .ok r →
      MethodRef.parse r.text.toList = .ok r ∧ (arrow <:+: s → r.text = String.ofList s)) ∧
    ∀ (s : List Char) (f : FieldRef), FieldRef.parse s = .ok f →
      f.text = String.ofList s ∧ FieldRef.parse f.text.toList = .ok f := by
  refine ⟨fun s types => ?_, fun s r read => ?_, fun s f read => ?_⟩
  · rw [splitTypes, splitTypesFrom_eq_ok_iff]
    refine and_congr_right fun _ => ⟨fun isText => ?_, fun isText => ?_⟩
    · rw [isText, ← String.toList_join, String.ofList_toList]
    · rw [← String.toList_join, isText, String.toList_ofList]
  · obtain ⟨readable, ⟨noArrow, rfl⟩ | ⟨isOwner, noArrow, -⟩⟩ := MethodRef.parse_eq_ok_iff.mp read
    · exact ⟨read, fun _ => String.ofList_toList.symm⟩
    · have empty : ¬ arrow <:+: r.owner.toList := by simp [isOwner, arrow_eq]
      exact ⟨MethodRef.parse_eq_ok_iff.mpr ⟨readable, .inl ⟨empty, rfl⟩⟩, fun occurs => absurd occurs noArrow⟩
  · obtain ⟨-, rfl⟩ := FieldRef.parse_eq_ok_iff.mp read
    exact ⟨String.ofList_toList.symm, read⟩

/-- A constructor with an array and a class among its parameters. -/
def keyConstructor : MethodRef := ⟨"LKey;", "<init>", ["[B", "LA;"], "V"⟩

/-- The constructor is read from its text, a declaration without owner from the text with an arrow in front as well. -/
theorem keyConstructor_reads_back :
    MethodRef.parse "LKey;-><init>([BLA;)V".toList = .ok keyConstructor ∧
      MethodRef.parse keyConstructor.text.toList = .ok keyConstructor ∧
      keyConstructor.text = "LKey;-><init>([BLA;)V" ∧
      MethodRef.parse "f()J".toList = .ok ⟨"", "f", [], "J"⟩ ∧
      MethodRef.parse "->f()J".toList = .ok ⟨"", "f", [], "J"⟩ ∧
      FieldRef.parse "LKey;->size:I".toList = .ok ⟨"LKey;", "size", "I"⟩ ∧
      FieldRef.parse (⟨"LKey;", "size", "I"⟩ : FieldRef).text.toList = .ok ⟨"LKey;", "size", "I"⟩ ∧
      splitTypes "[BLA;".toList = .ok ["[B", "LA;"] := by
  obtain ⟨lists, methods, fields⟩ := references_read_back
  have read : MethodRef.parse "LKey;-><init>([BLA;)V".toList = .ok keyConstructor := by decide +kernel
  have bare : MethodRef.parse "f()J".toList = .ok ⟨"", "f", [], "J"⟩ := by decide +kernel
  have field : FieldRef.parse "LKey;->size:I".toList = .ok ⟨"LKey;", "size", "I"⟩ := by decide +kernel
  have occurs : arrow <:+: "LKey;-><init>([BLA;)V".toList := ⟨"LKey;".toList, "<init>([BLA;)V".toList, by decide +kernel⟩
  obtain ⟨readBack, same⟩ := methods _ _ read
  refine ⟨read, readBack, ?_, bare, (methods _ _ bare).1, field, (fields _ _ field).2, ?_⟩
  · rw [same occurs, String.ofList_toList]
  · refine (lists _ _).mpr ⟨?_, by decide +kernel⟩
    intro t inside
    rcases List.mem_pair.mp inside with rfl | rfl
    · exact .array (.primitive (by decide))
    · exact @IsDescriptor.cls ['A'] (by decide)

end SmaliTrace.Smali
