import Legalise.Lib.Cut
import Legalise.Lib.Except
import Legalise.Python.Text

/-!
This module contains how the import of a skill takes its frontmatter apart from its instructions, which cuts at
three hyphens wherever they stand.
-/

namespace LawveImport

/--
What `yaml.safe_load` returns: a mapping, something else that is falsy, or something else that is truthy.
-/
inductive YamlValue (μ : Type) where
  | mapping (entries : μ)
  | falsy
  | truthy
  deriving DecidableEq

/--
What `yaml.safe_load` raises: a `YAMLError`, or another exception of a constructor.
-/
inductive YamlFailure where
  | yamlError
  | other
  deriving DecidableEq

def hyphens : PyStr := py "---"

def newline : CodePoint := .ofChar '\n'

/--
`text.split("---", maxsplit)`
-/
def splitAtHyphens : Nat → PyStr → List PyStr
  | 0, text => [text]
  | maxsplit + 1, text =>
    match Cut.cut hyphens text with
    | some (before, after) => before :: splitAtHyphens maxsplit after
    | none => [text]

/--
`text.lstrip("\n")`
-/
def lstripNewlines (text : PyStr) : PyStr :=
  PyStr.lstripOf (· = newline) text

section Import

variable {μ : Type} (emptyMapping : μ) (safeLoad : PyStr → Except YamlFailure (YamlValue μ))

/--
The mapping of a frontmatter, if `yaml.safe_load(front) or {}` is one. A `YAMLError` stands for the empty one.
-/
def loadMapping (front : PyStr) : Except YamlFailure (Option μ) :=
  match safeLoad front with
  | .ok (.mapping entries) => .ok (some entries)
  | .ok .falsy => .ok (some emptyMapping)
  | .ok .truthy => .ok none
  | .error .yamlError => .ok (some emptyMapping)
  | .error .other => .error .other

/--
`_parse_frontmatter`
-/
def parseFrontmatter (skillMd : PyStr) : Except YamlFailure (μ × PyStr) :=
  if hyphens <+: skillMd then
    match splitAtHyphens 2 skillMd with
    | [_, front, body] => do
      match ← loadMapping emptyMapping safeLoad front with
      | some entries => return (entries, lstripNewlines body)
      | none => return (emptyMapping, skillMd)
    | _ => return (emptyMapping, skillMd)
  else return (emptyMapping, skillMd)

/--
The `instructions` of `build_manifest_draft` without overrides.
-/
def instructions (skillMd name : PyStr) : Except YamlFailure PyStr := do
  let (_, body) ← parseFrontmatter emptyMapping safeLoad skillMd
  if body ≠ [] then return body
  else if skillMd ≠ [] then return skillMd
  else return name

/--
A skill with this frontmatter and this body.
-/
def skillMarkdown (front body : PyStr) : PyStr :=
  hyphens ++ [newline] ++ front ++ [newline] ++ hyphens ++ [newline] ++ body

/--
The frontmatter is read for itself, and the body becomes the instructions.
-/
structure KeepsInstructions (front body name : PyStr) : Prop where
  parsed : ∀ entries, safeLoad front = .ok (.mapping entries)
    → parseFrontmatter emptyMapping safeLoad (skillMarkdown front body) = .ok (entries, lstripNewlines body)
  instructed : instructions emptyMapping safeLoad (skillMarkdown front body) name = .ok (lstripNewlines body)

/--
The line breaks around a frontmatter do not change its mapping.
-/
def ReadsAlike (front : PyStr) : Prop :=
  ∀ entries, safeLoad front = .ok (.mapping entries)
    → loadMapping emptyMapping safeLoad (newline :: front ++ [newline]) = .ok (some entries)

end Import

section Lemmas

variable {μ : Type} {emptyMapping : μ} {safeLoad : PyStr → Except YamlFailure (YamlValue μ)}

theorem newline_notMem_hyphens : newline ∉ hyphens := by
  decide

theorem skillMarkdown_eq (front body : PyStr)
    : skillMarkdown front body = hyphens ++ (newline :: front ++ newline :: (hyphens ++ newline :: body)) := by
  simp [skillMarkdown]

theorem length_lstripNewlines_le (text : PyStr) : (lstripNewlines text).length ≤ text.length :=
  (List.dropWhile_suffix _).length_le

theorem lstripNewlines_cons (text : PyStr) : lstripNewlines (newline :: text) = lstripNewlines text := by
  simp [lstripNewlines, PyStr.lstripOf]

theorem hyphens_prefix_skillMarkdown (front body : PyStr) : hyphens <+: skillMarkdown front body := by
  rw [skillMarkdown_eq]
  exact List.prefix_append _ _

theorem skillMarkdown_ne_lstripNewlines (front body : PyStr) : skillMarkdown front body ≠ lstripNewlines body := by
  intro heq
  have hlength := congrArg List.length heq
  have hbody := length_lstripNewlines_le body
  simp only [skillMarkdown, List.length_append, List.length_cons] at hlength
  omega

theorem splitAtHyphens_of_cut {text before after : PyStr} (h : Cut.cut hyphens text = some (before, after)) (n : Nat)
    : splitAtHyphens (n + 1) text = before :: splitAtHyphens n after := by
  simp only [splitAtHyphens, h]

/--
Without three hyphens in a row, the frontmatter ends where its closing line begins.
-/
theorem splitAtHyphens_of_not_isInfix {front : PyStr} (h : ¬ hyphens <:+: front) (body : PyStr)
    : splitAtHyphens 2 (skillMarkdown front body) = [[], newline :: front ++ [newline], newline :: body] := by
  have hfront : ¬ hyphens <:+: newline :: front := by
    rw [List.infix_cons_iff, not_or]
    refine ⟨fun hstart => ?_, h⟩
    exact absurd (List.cons_prefix_cons.mp (hstart : .ofChar '-' :: py "--" <+: newline :: front)).left (by decide)
  have hclose := Cut.cut_append_separator hfront newline_notMem_hyphens (by decide) (newline :: body)
  rw [skillMarkdown_eq, splitAtHyphens_of_cut (Cut.cut_append_self _ _), splitAtHyphens_of_cut hclose]
  rfl

/--
Three hyphens in a row end the frontmatter early, and what follows them goes to the body.
-/
theorem splitAtHyphens_of_isInfix {front : PyStr} (h : hyphens <:+: front) (body : PyStr)
    : ∃ before after, splitAtHyphens 2 (skillMarkdown front body)
      = [[], before, after ++ newline :: (hyphens ++ newline :: body)] := by
  cases hcut : Cut.cut hyphens (newline :: front) with
  | none => exact absurd (h.trans (List.suffix_cons _ _).isInfix) (Cut.cut_eq_none_iff.mp hcut)
  | some pair =>
    refine ⟨pair.fst, pair.snd, ?_⟩
    have hearly := Cut.cut_append hcut (newline :: (hyphens ++ newline :: body))
    rw [skillMarkdown_eq, splitAtHyphens_of_cut (Cut.cut_append_self _ _), splitAtHyphens_of_cut hearly]
    rfl

/--
The newlines at the front are gone, and no more.
-/
theorem suffix_lstripNewlines {c : CodePoint} (hc : c ≠ newline) (text rest : PyStr)
    : c :: rest <:+ lstripNewlines (text ++ c :: rest) := by
  induction text with
  | nil => simp [lstripNewlines, PyStr.lstripOf, hc]
  | cons d text ih =>
    by_cases hd : d = newline
    . rw [hd, List.cons_append, lstripNewlines_cons]
      exact ih
    . have hkeep : lstripNewlines (d :: text ++ c :: rest) = d :: text ++ c :: rest := by
        simp [lstripNewlines, PyStr.lstripOf, hd]
      rw [hkeep]
      exact List.suffix_append _ _

/--
Behind an early end, more is left than the body.
-/
theorem lstripNewlines_ne (after body : PyStr)
    : lstripNewlines (after ++ newline :: (hyphens ++ newline :: body)) ≠ lstripNewlines body := by
  intro h
  have hrest : .ofChar '-' :: (py "--" ++ newline :: body)
      <:+ lstripNewlines ((after ++ [newline]) ++ .ofChar '-' :: (py "--" ++ newline :: body)) :=
    suffix_lstripNewlines (by decide) _ _
  have heq : (after ++ [newline]) ++ .ofChar '-' :: (py "--" ++ newline :: body)
      = after ++ newline :: (hyphens ++ newline :: body) := by
    simp [hyphens, py]
  rw [heq, h] at hrest
  have hbody := length_lstripNewlines_le body
  have hlength := hrest.length_le
  simp only [List.length_cons, List.length_append] at hlength
  omega

/--
A frontmatter without three hyphens in a row is read with the line breaks around it.
-/
theorem parseFrontmatter_of_not_isInfix {front : PyStr} (h : ¬ hyphens <:+: front) (body : PyStr)
    : parseFrontmatter emptyMapping safeLoad (skillMarkdown front body) = do
        match ← loadMapping emptyMapping safeLoad (newline :: front ++ [newline]) with
        | some entries => return (entries, lstripNewlines body)
        | none => return (emptyMapping, skillMarkdown front body) := by
  unfold parseFrontmatter
  rw [if_pos (hyphens_prefix_skillMarkdown _ _), splitAtHyphens_of_not_isInfix h]
  dsimp only
  rw [lstripNewlines_cons]

/--
Without three hyphens in a row, the parse returns the body exactly if it reads a mapping.
-/
theorem parseFrontmatter_eq_ok_iff {front : PyStr} (h : ¬ hyphens <:+: front) (body : PyStr) (entries : μ)
    : parseFrontmatter emptyMapping safeLoad (skillMarkdown front body) = .ok (entries, lstripNewlines body)
        ↔ loadMapping emptyMapping safeLoad (newline :: front ++ [newline]) = .ok (some entries) := by
  rw [parseFrontmatter_of_not_isInfix h, Except.bind_eq_ok_iff]
  constructor
  . rintro ⟨mapping, hload, hreturn⟩
    cases mapping with
    | some other =>
      cases hreturn
      exact hload
    | none =>
      have hpair := (Except.pure_eq_ok_iff _ _).mp hreturn
      exact absurd (congrArg Prod.snd hpair) (skillMarkdown_ne_lstripNewlines front body)
  . intro hload
    exact ⟨some entries, hload, rfl⟩

/--
With three hyphens in a row, whatever the parse returns is not the body.
-/
theorem snd_parseFrontmatter_ne {front : PyStr} (h : hyphens <:+: front) {body : PyStr} {entries : μ} {rest : PyStr}
    (hparse : parseFrontmatter emptyMapping safeLoad (skillMarkdown front body) = .ok (entries, rest))
    : rest ≠ lstripNewlines body := by
  have ⟨before, after, hsplit⟩ := splitAtHyphens_of_isInfix h body
  unfold parseFrontmatter at hparse
  rw [if_pos (hyphens_prefix_skillMarkdown _ _), hsplit] at hparse
  dsimp only at hparse
  rw [Except.bind_eq_ok_iff] at hparse
  have ⟨mapping, _, hreturn⟩ := hparse
  cases mapping with
  | some other =>
    cases hreturn
    exact lstripNewlines_ne after body
  | none =>
    cases hreturn
    exact skillMarkdown_ne_lstripNewlines front body

theorem instructions_of_parse {skillMd name body : PyStr} {entries : μ}
    (h : parseFrontmatter emptyMapping safeLoad skillMd = .ok (entries, body))
    : instructions emptyMapping safeLoad skillMd name
        = .ok (if body ≠ [] then body else if skillMd ≠ [] then skillMd else name) := by
  unfold instructions
  rw [h]
  dsimp only [bind, Except.bind]
  split
  . rfl
  . split <;> rfl

end Lemmas

/--
An import keeps the instructions of a skill, if and only if there are no three hyphens in a row in its
frontmatter, the line breaks around the frontmatter do not change it, and the body is more than newlines.
-/
theorem keepsInstructions_iff {μ : Type} (emptyMapping : μ) (safeLoad : PyStr → Except YamlFailure (YamlValue μ))
    {front : PyStr} (hload : ∃ entries, safeLoad front = .ok (.mapping entries)) (body name : PyStr)
    : KeepsInstructions emptyMapping safeLoad front body name
        ↔ ¬ hyphens <:+: front ∧ ReadsAlike emptyMapping safeLoad front ∧ lstripNewlines body ≠ [] := by
  have ⟨own, hown⟩ := hload
  constructor
  . intro h
    have hparse := h.parsed own hown
    have hnot : ¬ hyphens <:+: front := fun hinfix => snd_parseFrontmatter_ne hinfix hparse rfl
    refine ⟨hnot, fun entries hentries => ?_, fun hempty => ?_⟩
    . exact (parseFrontmatter_eq_ok_iff hnot body entries).mp (h.parsed entries hentries)
    . have hinstructed := h.instructed
      rw [instructions_of_parse hparse, hempty, if_neg fun h => h rfl, if_pos, Except.ok.injEq] at hinstructed
      . exact skillMarkdown_ne_lstripNewlines front body (hinstructed.trans hempty.symm)
      . exact fun hnil => skillMarkdown_ne_lstripNewlines front body (hnil.trans hempty.symm)
  . rintro ⟨hnot, hreads, hbody⟩
    have hparsed : ∀ entries, safeLoad front = .ok (.mapping entries)
        → parseFrontmatter emptyMapping safeLoad (skillMarkdown front body) = .ok (entries, lstripNewlines body) :=
      fun entries hentries => (parseFrontmatter_eq_ok_iff hnot body entries).mpr (hreads entries hentries)
    refine ⟨hparsed, ?_⟩
    rw [instructions_of_parse (hparsed own hown), if_pos hbody]

section Hyphens

/--
Frontmatter in plain lines, each a key and a text.
-/
def plainLoad (front : PyStr) : Except YamlFailure (YamlValue (List (PyStr × PyStr))) :=
  let lines := (front.splitOn newline).filter (· ≠ [])
  match lines.mapM (Cut.cut (py ": ")) with
  | some [] => .ok .falsy
  | some entries => .ok (.mapping entries)
  | none => .error .yamlError

/--
A skill whose source has three hyphens in its address.
-/
def hyphenatedFront : PyStr := py "name: memo\nsource: https://skills.example/memo---v2"

theorem hyphenatedFront_not_keepsInstructions
    : (∃ entries, plainLoad hyphenatedFront = .ok (.mapping entries))
        ∧ hyphens ∉ hyphenatedFront.splitOn newline
        ∧ ¬ KeepsInstructions [] plainLoad hyphenatedFront (py "Draft a memo.") (py "memo") := by
  refine ⟨⟨[(py "name", py "memo"), (py "source", py "https://skills.example/memo---v2")], by decide +kernel⟩,
    by decide +kernel, fun h => ?_⟩
  have hinstructed := h.instructed
  revert hinstructed
  decide +kernel

def plainFront : PyStr := py "name: memo\nsource: https://skills.example/memo"

theorem keepsInstructions_iff_plainFront
    : KeepsInstructions [] plainLoad plainFront (py "Draft a memo.") (py "memo")
        ↔ ¬ hyphens <:+: plainFront ∧ ReadsAlike [] plainLoad plainFront
          ∧ lstripNewlines (py "Draft a memo.") ≠ [] :=
  keepsInstructions_iff [] plainLoad
    ⟨[(py "name", py "memo"), (py "source", py "https://skills.example/memo")], by decide +kernel⟩ _ _

end Hyphens

end LawveImport
