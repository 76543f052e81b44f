import Legalise.Matters.Routes
import Legalise.Python.Text

/-!
This module contains the extraction of the text of an uploaded file.
-/

namespace DocumentVersions

open Matters (ExtractResult)

/--
The readers of the formats and `str.lower`. `docx` has no result where python-docx raises an exception.
-/
structure Readers where
  lower : PyStr → PyStr
  pypdf : Bytes → PyStr × Option Int × Option PyStr
  pdfplumber : Bytes → PyStr × Option Int
  docx : Bytes → Option PyStr

inductive FileKind where
  | pdf
  | docx
  | text
  | unknown
  deriving DecidableEq

def pdfMagic : Bytes := [0x25, 0x50, 0x44, 0x46, 0x2D]

def zipMagic : Bytes := [0x50, 0x4B, 0x03, 0x04]

def docxMime : PyStr := py "application/vnd.openxmlformats-officedocument.wordprocessingml.document"

def minTextChars : Nat := 100

def minSizeForScanCheck : Nat := 50000

/--
`name.endswith(ending)`
-/
def endsWith (ending name : PyStr) : Bool :=
  ending.isSuffixOf name

variable (R : Readers)

def sniffKind (fileBytes : Bytes) (mimeType filename : PyStr) : FileKind :=
  let head := fileBytes.take 8
  let nameLc := R.lower filename
  if pdfMagic.isPrefixOf head then .pdf
  else if zipMagic.isPrefixOf head && endsWith (py ".docx") nameLc then .docx
  else
    let mt := R.lower mimeType
    if mt = py "application/pdf" || endsWith (py ".pdf") nameLc then .pdf
    else if mt = docxMime || endsWith (py ".docx") nameLc then .docx
    else if (py "text/").isPrefixOf mt || mt = py "application/x-markdown" || endsWith (py ".txt") nameLc
        || endsWith (py ".md") nameLc then .text
    else .unknown

def methodFailed : PyStr := py "failed"

def extractionFailed (pageCount : Option Int) (reason : PyStr) : ExtractResult :=
  ⟨[], methodFailed, 0, pageCount, some reason⟩

def extracted (text method : PyStr) (pageCount : Option Int) : ExtractResult :=
  ⟨text, method, text.length, pageCount, none⟩

def extractPdf (fileBytes : Bytes) : ExtractResult :=
  let (text, pageCount, err) := R.pypdf fileBytes
  if err = some (py "encrypted") then extractionFailed pageCount (py "encrypted")
  else if text.length < minTextChars && minSizeForScanCheck < fileBytes.length then
    let (ppText, ppPages) := R.pdfplumber fileBytes
    if minTextChars ≤ ppText.length then extracted ppText (py "pdfplumber") (ppPages <|> pageCount)
    else extractionFailed pageCount (py "scanned_pdf")
  else
    match err with
    | some (c :: err) =>
      if text = [] then extractionFailed pageCount (c :: err) else extracted text (py "pypdf") pageCount
    | _ => extracted text (py "pypdf") pageCount

def extract (fileBytes : Bytes) (mimeType filename : PyStr) : ExtractResult :=
  match sniffKind R fileBytes mimeType filename with
  | .pdf => extractPdf R fileBytes
  | .docx =>
    match R.docx fileBytes with
    | none => extractionFailed none (py "docx_read_error")
    | some text => extracted text (py "python-docx") none
  | .text => extracted (PyStr.strip (Utf8.decodeReplace fileBytes)) (py "passthrough") none
  | .unknown => extractionFailed none (py "unsupported_mime")

end DocumentVersions
