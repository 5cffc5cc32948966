import SmaliTrace.Text.Category
import SmaliTrace.Text.Script

/-!
Classes of code points by the name of a property: general categories under their short and long
names, scripts, and three classes of their own. Case, spaces, hyphens and underscores in a name do
not count.
-/
namespace SmaliTrace.Regex
open SmaliTrace.Text

/-- The categories that have a long name, by their short name. -/
def categoryAliases : List (String × String) := [
  ("Cased_Letter", "LC"), ("Close_Punctuation", "Pe"), ("Combining_Mark", "M"),
  ("Connector_Punctuation", "Pc"), ("Control", "Cc"), ("Currency_Symbol", "Sc"),
  ("Dash_Punctuation", "Pd"), ("Decimal_Number", "Nd"), ("Enclosing_Mark", "Me"),
  ("Final_Punctuation", "Pf"), ("Format", "Cf"), ("Initial_Punctuation", "Pi"), ("Letter", "L"),
  ("Letter_Number", "Nl"), ("Line_Separator", "Zl"), ("Lowercase_Letter", "Ll"), ("Mark", "M"),
  ("Math_Symbol", "Sm"), ("Modifier_Letter", "Lm"), ("Modifier_Symbol", "Sk"),
  ("Nonspacing_Mark", "Mn"), ("Number", "N"), ("Open_Punctuation", "Ps"), ("Other", "C"),
  ("Other_Letter", "Lo"), ("Other_Number", "No"), ("Other_Punctuation", "Po"),
  ("Other_Symbol", "So"), ("Paragraph_Separator", "Zp"), ("Private_Use", "Co"),
  ("Punctuation", "P"), ("Separator", "Z"), ("Space_Separator", "Zs"), ("Spacing_Mark", "Mc"),
  ("Surrogate", "Cs"), ("Symbol", "S"), ("Titlecase_Letter", "Lt"), ("Unassigned", "Cn"),
  ("Uppercase_Letter", "Lu"), ("cntrl", "Cc"), ("digit", "Nd"), ("punct", "P")]

/-- A name in lower case without spaces, hyphens and underscores. -/
def plainName (name : List Char) : String :=
  String.ofList ((name.filter fun c => c ≠ '_' && c ≠ '-' && c ≠ ' ').map Char.toLower)

/-- The code points whose category has an abbreviation that starts with the letter. -/
def categoryGroup (letter : Char) : Intervals :=
  .union ((Category.all.filter fun c => c.abbreviation.toList.head? = some letter).map
    Category.intervals)

/-- The classes by category, under short names. -/
def categoryClasses : List (String × Intervals) :=
  (Category.all.map fun c => (c.abbreviation, c.intervals)) ++
    (['C', 'L', 'M', 'N', 'P', 'S', 'Z'].map fun c => (String.singleton c, categoryGroup c)) ++
    [("LC", .union ([.upperLetter, .lowerLetter, .titleLetter].map Category.intervals))]

/-- All classes, under plain names; of two classes of one name the first counts. -/
def propertyClasses : List (String × Intervals) :=
  let own : List (String × Intervals) :=
    [("Any", [(0, lastCodePoint)]), ("Assigned", Category.unassigned.intervals.complement),
      ("ASCII", [(0, 0x7f)])]
  let aliases := categoryAliases.filterMap fun (other, name) =>
    (categoryClasses.lookup name).map fun set => (other, set)
  (own ++ categoryClasses ++ scripts ++ aliases).map fun (name, set) => (plainName name.toList, set)

/-- The class with the name. -/
def propertyClass? (name : List Char) : Option Intervals := propertyClasses.lookup (plainName name)

end SmaliTrace.Regex
