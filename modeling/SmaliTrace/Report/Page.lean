import SmaliTrace.Analysis.Basic
import SmaliTrace.Markdown.Html
import SmaliTrace.Report.Document

/-!
The report of an analysis as a document, with one section for each rule.
-/
namespace SmaliTrace.Report
open SmaliTrace.Analysis SmaliTrace.Slice

/-- The title of every report. -/
def title : String := "dexslice report"

/-- The findings of a backward rule: a table of them, then the trace of each. -/
def findingBlocks (p : Program) (fs : List Finding) : List Block :=
  let row (f : Finding) : List Inline :=
    [.text (f.file ++ ":" ++ toString f.line), .text f.constant.kind.name,
      .code (cellCode f.constant.value.toText), .text (toString f.constant.fuzzy)]
  let trace (f : Finding) (i : Nat) : List Block :=
    [.paragraph [.text ("Trace " ++ toString (i + 1) ++ ":")],
      .listing (f.trace.map fun l => (p.label l).show)]
  if fs.isEmpty then [.paragraph [.text "No findings."]]
  else
    .table ["Location", "Kind", "Value", "Fuzzy"] (fs.map row) ::
      fs.zipIdx.flatMap fun (f, i) => trace f i

/-- The values that a forward rule reaches. -/
def constantBlocks (p : Program) (cs : List Constant) : List Block :=
  let row (c : Constant) : List Inline :=
    [.text (toString c.search), .text c.kind.name, .code (cellCode c.value.toText),
      .text (toString c.fuzzy), .text (plain (p.label c.line).show)]
  if cs.isEmpty then [.paragraph [.text "Nothing reached."]]
  else [.table ["Search", "Kind", "Value", "Fuzzy", "Line"] (cs.map row)]

/-- The section of a rule. -/
def ruleBlocks (p : Program) (r : RuleResult) : List Block :=
  let c := r.criterion
  let counts := toString c.searches.length ++ " seed(s), " ++
    toString c.abortedSearches.length ++ " aborted, " ++ toString c.faults.length ++ " error(s)."
  let found :=
    if r.backward then findingBlocks p r.findings else constantBlocks p (c.allConstants p.label)
  let faults : List Block :=
    if c.faults.isEmpty then []
    else [.paragraph [.text "Errors:"], .bullets (c.faults.map fun f => .text (plain f.message))]
  [.heading 2 r.name, .paragraph [.text "Pattern: ", .code c.pattern], .paragraph [.text counts]] ++
    found ++ faults

/-- The report of an analysis. -/
def document (r : Result) : Document :=
  let counts := toString r.program.classes.size ++ " classes, " ++
    toString r.index.summaries.size ++ " methods analyzed."
  [.heading 1 title, .paragraph [.text counts]] ++ r.rules.flatMap (ruleBlocks r.program)

/-- The report in Markdown. -/
def markdown (r : Result) : String := (document r).markdown

/-- The report as a page in HTML. -/
def html (r : Result) : String :=
  "<!DOCTYPE html>\n<html>\n<head><meta charset=\"utf-8\"><title>" ++ title ++
    "</title></head>\n<body>\n" ++ SmaliTrace.Markdown.toHtml (markdown r) ++ "</body>\n</html>\n"

end SmaliTrace.Report
