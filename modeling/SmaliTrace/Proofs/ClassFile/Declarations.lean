import SmaliTrace.Proofs.ClassFile.Descriptors
import SmaliTrace.Proofs.Text.Cut

/-!
The methods of a class that is read from a file are those that its declarations name: reading the body neither
renames a method nor changes its descriptor. A name that was read has no opening parenthesis, so a method is found
again by the text of its name and parameters.
-/
namespace SmaliTrace
open SmaliTrace.ClassFile SmaliTrace.Smali

/-! ### Names -/

namespace Smali

theorem MethodRef.name_of_parseMember {owner s : List Char} {r : MethodRef} (read : parseMember owner s = .ok r) :
    '(' ∉ r.name.toList := by
  unfold parseMember at read
  split at read
  · simp [fail] at read
  · next name inside cut =>
    split at read
    · simp [fail] at read
    · split at read
      · simp [fail] at read
      · next params result _ =>
        cases types : splitTypes params with
        | error e => simp [types, bind, Except.bind] at read
        | ok found =>
          simp only [types, bind, Except.bind, Except.ok.injEq] at read
          subst read
          rw [String.toList_ofList]
          exact Text.not_mem_of_cut? cut

theorem MethodRef.name_of_parse {s : List Char} {r : MethodRef} (read : parse s = .ok r) : '(' ∉ r.name.toList := by
  unfold parse at read
  split at read <;> exact name_of_parseMember read

end Smali

/-! ### Declarations -/

namespace ClassFile

/-- The method is declared: some text names it, its parameters and its result. -/
def Method.Declared (m : Method) : Prop :=
  ∃ declaration r, MethodRef.parse declaration = .ok r ∧ m.name = r.name ∧ m.params = r.params ∧ m.result = r.result

theorem Method.Declared.congr {m m' : Method} (declared : m.Declared) (same : m'.ref = m.ref) : m'.Declared := by
  obtain ⟨declaration, r, read, name, params, result⟩ := declared
  simp only [ref, MethodRef.mk.injEq] at same
  exact ⟨declaration, r, read, same.2.1.trans name, same.2.2.1.trans params, same.2.2.2.trans result⟩

namespace OpenMethod

theorem ref_finish (o : OpenMethod) : o.finish.ref = o.method.ref := by
  unfold finish
  dsimp only
  split <;> rfl

theorem ref_addLine (o : OpenMethod) (path : String) (line : Nat) (raw : List Char) :
    (o.addLine path line raw).method.ref = o.method.ref := by
  unfold addLine
  split
  · rfl
  · split
    · rfl
    · next i decoder _ =>
      dsimp only
      split <;> exact (method_setCount { o with decoder := decoder } path line i).1

end OpenMethod

theorem declared_of_parseMethod {line : Nat} {words : List (List Char)} {m : Method}
    (read : parseMethod line words = .ok m) : m.Declared := by
  unfold parseMethod at read
  dsimp only at read
  split at read
  · next declaration =>
    split at read
    · simp at read
    · next r isRef =>
      cases read
      exact ⟨_, r, isRef, rfl, rfl, rfl⟩
  · simp at read

/-- Every method of a class that is read from a file is declared. -/
theorem declared_of_parse {path text : String} {c : ClassDecl} (parsed : parse path text = .ok c) :
    ∀ m ∈ c.methods, m.Declared :=
  Keeps.of_parse ⟨fun _ _ _ read => declared_of_parseMethod read,
    fun o path line raw declared => declared.congr (o.ref_addLine path line raw),
    fun o declared => declared.congr o.ref_finish, fun _ _ declared => declared⟩ parsed

theorem Method.Declared.name {m : Method} (declared : m.Declared) : '(' ∉ m.name.toList := by
  obtain ⟨_, r, read, name, -⟩ := declared
  exact name ▸ MethodRef.name_of_parse read

end ClassFile

namespace Program

/-- The methods of a program of classes read from class files are declared. -/
theorem declared_ofClasses {classes : List ClassDecl}
    (parsed : ∀ c ∈ classes, ∃ path text, ClassFile.parse path text = .ok c) {id : MethodId} {m : Method}
    (isMethod : (ofClasses classes).1.method? id = some m) : m.Declared := by
  obtain ⟨c, isClass, inside⟩ := Option.bind_eq_some_iff.mp isMethod
  obtain ⟨path, text, isRead⟩ := parsed c (mem_of_mem_ofClasses (Array.mem_of_getElem? isClass))
  exact ClassFile.declared_of_parse isRead m (Array.mem_of_getElem? inside)

end Program

end SmaliTrace
