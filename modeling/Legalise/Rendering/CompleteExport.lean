import Legalise.Rendering.DocxExport
import Legalise.Rendering.HtmlExport

/-!
This module contains when the exports of a document keep all of its text.
-/

namespace Rendering

open PyStr

section Definitions

variable (env : Env) (picture : Bytes → Bool)

/--
Blockquotes stand inside of table cells only. An item of a list has paragraphs, headings and lists, and
a task has one paragraph, up to blocks without text.
-/
def Plain (blocks : List EditorNode) : Prop :=
  inked (blocks.flatMap docxLost) = []

end Definitions

variable {env : Env} {picture : Bytes → Bool} {title fallback : PyStr}
  {comments : List DocumentComment} {blocks : List EditorNode}

section Quotes

end Quotes

end Rendering
