import Legalise.Assistant.EnvelopeContent

/-!
This module contains that the decoded text only ever grows as more of a reply arrives, and when decoding
raises.
-/

namespace EnvelopeContent

open PyStr JsonText

section Bounds

theorem hexValue?_lt {base d : Nat} {c : CodePoint} (h : hexValue? base c = some d) : d < base := by
  unfold hexValue? at h
  rw [Option.bind_eq_some_iff] at h
  have ⟨_, _, hd⟩ := h
  split at hd
  . next hlt =>
    injection hd with hd
    exact hd ▸ hlt
  . cases hd

theorem readDigitsFrom_lt {base value n : Nat} {s : PyStr} (hbase : 0 < base)
    (h : readDigitsFrom base value s = some n) : n < (value + 1) * base ^ s.length := by
  have hstep {d : Nat} (hd : d < base) : value * base + d + 1 ≤ (value + 1) * base := by
    rw [Nat.add_mul]
    omega
  have hgrow {a b : Nat} (hab : a ≤ b) : base ^ a ≤ base ^ b := Nat.pow_le_pow_right hbase hab
  match s with
  | [] =>
    simp only [readDigitsFrom, Option.some.injEq] at h
    simp [h]
  | [c] =>
    simp only [readDigitsFrom, Option.map_eq_some_iff] at h
    obtain ⟨d, hd, heq⟩ := h
    have := hstep (hexValue?_lt hd)
    simp only [List.length_singleton, pow_one]
    omega
  | c :: d :: s =>
    unfold readDigitsFrom at h
    split at h
    . rw [Option.bind_eq_some_iff] at h
      obtain ⟨e, he, hrest⟩ := h
      calc
        n < (value * base + e + 1) * base ^ s.length := readDigitsFrom_lt hbase hrest
        _ ≤ (value + 1) * base * base ^ s.length := Nat.mul_le_mul_right _ (hstep (hexValue?_lt he))
        _ = (value + 1) * base ^ (s.length + 1) := by rw [Nat.mul_assoc, ← Nat.pow_succ']
        _ ≤ (value + 1) * base ^ (c :: d :: s).length := Nat.mul_le_mul_left _ (hgrow (by simp))
    . rw [Option.bind_eq_some_iff] at h
      obtain ⟨e, he, hrest⟩ := h
      calc
        n < (value * base + e + 1) * base ^ (d :: s).length := readDigitsFrom_lt hbase hrest
        _ ≤ (value + 1) * base * base ^ (d :: s).length := Nat.mul_le_mul_right _ (hstep (hexValue?_lt he))
        _ = (value + 1) * base ^ (c :: d :: s).length := by rw [Nat.mul_assoc, ← Nat.pow_succ']; rfl

theorem readNumber_lt {base n : Nat} {s : PyStr} (hbase : 0 < base) (h : readNumber base s = some n)
    : n < base ^ s.length := by
  cases s with
  | nil => cases h
  | cons c s =>
    simp only [readNumber, Option.bind_eq_some_iff] at h
    obtain ⟨d, hd, hrest⟩ := h
    have hlt := hexValue?_lt hd
    calc
      n < (d + 1) * base ^ s.length := readDigitsFrom_lt hbase hrest
      _ ≤ base * base ^ s.length := Nat.mul_le_mul_right _ hlt
      _ = base ^ (c :: s).length := (Nat.pow_succ').symm

theorem length_dropBasePrefix_le (base : Nat) (s : PyStr) : (dropBasePrefix base s).length ≤ s.length := by
  unfold dropBasePrefix
  split
  . split <;> simp
  . exact le_refl _

theorem length_stripOf_le (p : CodePoint → Bool) (s : PyStr) : (stripOf p s).length ≤ s.length := by
  unfold stripOf rstripOf lstripOf List.rdropWhile
  rw [List.length_reverse]
  calc
    _ ≤ (s.dropWhile p).reverse.length := (List.dropWhile_sublist p).length_le
    _ ≤ s.length := by rw [List.length_reverse]; exact (List.dropWhile_sublist p).length_le

/--
A number has no more digits than its text has characters.
-/
theorem toInt_lt {base : Nat} {s : PyStr} {n : Int} (hbase : 0 < base) (h : toInt base s = some n)
    : n < (base : Int) ^ s.length := by
  have hread {t : PyStr} {m : Nat} (ht : t.length ≤ s.length) (hm : readNumber base (dropBasePrefix base t) = some m)
      : (m : Int) < (base : Int) ^ s.length := by
    have hlt : m < base ^ s.length := by
      calc
        m < base ^ (dropBasePrefix base t).length := readNumber_lt hbase hm
        _ ≤ base ^ s.length := Nat.pow_le_pow_right hbase ((length_dropBasePrefix_le base t).trans ht)
    exact_mod_cast hlt
  have hlength := length_stripOf_le isBlank (s.map asciiPoint)
  rw [List.length_map] at hlength
  unfold toInt at h
  split at h
  . cases h
  . next c rest hstrip =>
    rw [hstrip, List.length_cons] at hlength
    split at h
    . simp only [Option.map_eq_some_iff, Option.bind_eq_bind, Option.bind_eq_some_iff, Option.pure_def,
        Option.some.injEq] at h
      obtain ⟨_, ⟨m, hm, heq⟩, hneg⟩ := h
      have := hread (by omega) hm
      omega
    . split at h <;>
        simp only [Option.map_eq_some_iff, Option.bind_eq_bind, Option.bind_eq_some_iff, Option.pure_def,
          Option.some.injEq] at h <;>
        obtain ⟨_, ⟨m, hm, heq⟩, hpos⟩ := h <;> rw [← hpos, ← heq]
      . exact hread (by omega) hm
      . exact hread (by rw [List.length_cons]; omega) hm

end Bounds

section Escapes

/--
The four characters behind each `\u` of a string that are there, up to the closing quote.
-/
def unicodeGroups : PyStr → List PyStr
  | [] => []
  | ch :: s =>
    if ch = quoteMark then []
    else if ch ≠ backslash then unicodeGroups s
    else
      match s with
      | [] => []
      | esc :: s =>
        if esc ≠ smallU then unicodeGroups s
        else if s.length < 4 then []
        else s.take 4 :: unicodeGroups (s.drop 4)
termination_by s => s.length
decreasing_by
  all_goals simp only [List.length_cons, List.length_drop] at *
  all_goals omega

/--
No escape of the field's value is read as a negative number.
-/
def NoNegativeEscape (raw : PyStr) : Prop :=
  ∀ rest, searchField raw = some rest → ∀ group ∈ unicodeGroups rest, ∀ n, toInt 16 group = some n → 0 ≤ n

@[simp]
theorem unicodeGroups_nil : unicodeGroups [] = [] := by
  rw [unicodeGroups]

theorem unicodeGroups_quoteMark (s : PyStr) : unicodeGroups (quoteMark :: s) = [] := by
  rw [unicodeGroups.eq_def]
  dsimp only
  rw [if_pos rfl]

theorem unicodeGroups_plain {ch : CodePoint} (hquote : ch ≠ quoteMark) (hplain : ch ≠ backslash) (s : PyStr)
    : unicodeGroups (ch :: s) = unicodeGroups s := by
  rw [unicodeGroups.eq_def]
  dsimp only
  rw [if_neg hquote, if_pos hplain]

theorem unicodeGroups_backslash : unicodeGroups [backslash] = [] := by
  rw [unicodeGroups.eq_def]
  rfl

theorem unicodeGroups_letter {esc : CodePoint} (hletter : esc ≠ smallU) (s : PyStr)
    : unicodeGroups (backslash :: esc :: s) = unicodeGroups s := by
  rw [unicodeGroups.eq_def]
  dsimp only
  rw [if_neg (by decide), if_neg (by decide), if_pos hletter]

theorem unicodeGroups_unicode (s : PyStr)
    : unicodeGroups (backslash :: smallU :: s)
        = if s.length < 4 then [] else s.take 4 :: unicodeGroups (s.drop 4) := by
  rw [unicodeGroups.eq_def]
  dsimp only
  rw [if_neg (by decide), if_neg (by decide), if_neg (by decide)]

/--
An escape with its four characters does not fit into five.
-/
theorem unicodeGroups_of_length_lt {s : PyStr} (h : s.length < 6) : unicodeGroups s = [] := by
  match s with
  | [] => exact unicodeGroups_nil
  | ch :: s =>
    by_cases hquote : ch = quoteMark
    . rw [hquote, unicodeGroups_quoteMark]
    . by_cases hplain : ch ≠ backslash
      . rw [unicodeGroups_plain hquote hplain]
        exact unicodeGroups_of_length_lt (Nat.lt_of_succ_lt h)
      . rw [not_not.mp hplain] at h ⊢
        match s with
        | [] => exact unicodeGroups_backslash
        | esc :: s =>
          simp only [List.length_cons] at h
          by_cases hletter : esc ≠ smallU
          . rw [unicodeGroups_letter hletter]
            exact unicodeGroups_of_length_lt (by omega)
          . rw [not_not.mp hletter, unicodeGroups_unicode, if_pos (by omega)]

theorem unicodeGroups_subset_append (raw more : PyStr) : unicodeGroups raw ⊆ unicodeGroups (raw ++ more) := by
  match raw with
  | [] =>
    rw [unicodeGroups_nil]
    exact List.nil_subset _
  | ch :: s =>
    rw [List.cons_append]
    by_cases hquote : ch = quoteMark
    . rw [hquote, unicodeGroups_quoteMark]
      exact List.nil_subset _
    . by_cases hplain : ch ≠ backslash
      . rw [unicodeGroups_plain hquote hplain, unicodeGroups_plain hquote hplain]
        exact unicodeGroups_subset_append s more
      . rw [not_not.mp hplain]
        match s with
        | [] =>
          rw [unicodeGroups_backslash]
          exact List.nil_subset _
        | esc :: s =>
          rw [List.cons_append]
          by_cases hletter : esc ≠ smallU
          . rw [unicodeGroups_letter hletter, unicodeGroups_letter hletter]
            exact unicodeGroups_subset_append s more
          . rw [not_not.mp hletter, unicodeGroups_unicode, unicodeGroups_unicode]
            by_cases hfour : s.length < 4
            . rw [if_pos hfour]
              exact List.nil_subset _
            . rw [if_neg hfour, if_neg (by rw [List.length_append]; omega),
                List.take_append_of_le_length (by omega), List.drop_append_of_le_length (by omega)]
              exact List.cons_subset_cons _ (unicodeGroups_subset_append (s.drop 4) more)
termination_by raw.length
decreasing_by
  all_goals simp only [List.length_cons, List.length_drop] at *
  all_goals omega

theorem chr_eq_none_iff {code : Int} (h : code < 0x110000) : chr code = none ↔ code < 0 := by
  unfold chr
  split
  . simp only [reduceCtorEq, false_iff]
    omega
  . simp only [true_iff]
    omega

theorem chr_of_bounds {code : Int} (h : 0 ≤ code) (h' : code < 0x110000) : ∃ c, chr code = some c := by
  rw [← Option.ne_none_iff_exists', ne_eq, chr_eq_none_iff h']
  omega

/--
What a low surrogate is read from.
-/
theorem lowSurrogate_eq_some {lowEsc : PyStr} {low : Int} (h : lowSurrogate lowEsc = some low)
    : lowEsc.take 2 = [backslash, smallU] ∧ toInt 16 (lowEsc.drop 2) = some low ∧ 0xdc00 ≤ low ∧ low ≤ 0xdfff := by
  unfold lowSurrogate at h
  split at h
  . next hstart =>
    rw [Option.filter_eq_some_iff] at h
    have htake := List.prefix_iff_eq_take.mp (List.isPrefixOf_iff_prefix.mp hstart)
    exact ⟨htake.symm, h.left, by simpa using h.right⟩
  . cases h

theorem isOk_map_iff {out : PyStr} (r : Except ValueError PyStr)
    : (∃ c, r.map (fun more => out ++ more) = .ok c) ↔ ∃ c, r = .ok c := by
  cases r with
  | error e => simp [Except.map]
  | ok c => simp [Except.map]

/--
The loop raises if and only if some escape is read as a negative number.
-/
theorem isOk_decode_iff (raw : PyStr)
    : (∃ c, decode raw = .ok c) ↔ ∀ group ∈ unicodeGroups raw, ∀ n, toInt 16 group = some n → 0 ≤ n := by
  have hstop (hround : decodeRound raw = .stop) (hnone : unicodeGroups raw = [])
      : (∃ c, decode raw = .ok c) ↔ ∀ group ∈ unicodeGroups raw, ∀ n, toInt 16 group = some n → 0 ≤ n := by
    rw [decode_of_stop hround, hnone]
    simp
  match raw with
  | [] => exact hstop rfl unicodeGroups_nil
  | ch :: s =>
    by_cases hquote : ch = quoteMark
    . exact hstop (by rw [hquote]; rfl) (by rw [hquote, unicodeGroups_quoteMark])
    . by_cases hplain : ch ≠ backslash
      . have hround : decodeRound (ch :: s) = .next [ch] s := by
          unfold decodeRound
          dsimp only
          rw [if_neg hquote, if_pos hplain]
        rw [decode_of_next hround, isOk_map_iff, unicodeGroups_plain hquote hplain]
        exact isOk_decode_iff s
      . rw [not_not.mp hplain] at hstop ⊢
        match s with
        | [] => exact hstop rfl unicodeGroups_backslash
        | esc :: s =>
          by_cases hletter : esc ≠ smallU
          . have hround : decodeRound (backslash :: esc :: s) = .next [(jsonStringEscapes.lookup esc).getD esc] s := by
              unfold decodeRound
              dsimp only
              rw [if_neg (by decide), if_neg (by decide), if_pos hletter]
            rw [decode_of_next hround, isOk_map_iff, unicodeGroups_letter hletter]
            exact isOk_decode_iff s
          . rw [not_not.mp hletter] at hstop ⊢
            have hround : decodeRound (backslash :: smallU :: s) = unicodeRound s := rfl
            rw [unicodeGroups_unicode] at hstop ⊢
            by_cases hfour : s.length < 4
            . exact hstop (by rw [hround, unicodeRound, if_pos hfour]) (by rw [if_pos hfour])
            . rw [if_neg hfour]
              have hlength : (s.take 4).length = 4 := by
                rw [List.length_take]
                omega
              -- The group is harmless, and the loop goes on behind it.
              have hgoesOn {out : PyStr} (hnext : unicodeRound s = .next out (s.drop 4))
                  (hgroup : ∀ n, toInt 16 (s.take 4) = some n → 0 ≤ n)
                  : (∃ c, decode (backslash :: smallU :: s) = .ok c)
                    ↔ ∀ group ∈ s.take 4 :: unicodeGroups (s.drop 4), ∀ n, toInt 16 group = some n → 0 ≤ n := by
                rw [decode_of_next (hround.trans hnext), isOk_map_iff, isOk_decode_iff (s.drop 4), List.forall_mem_cons]
                exact ⟨fun h => ⟨hgroup, h⟩, fun h => h.right⟩
              cases hcode : toInt 16 (s.take 4) with
              | none =>
                refine @hgoesOn [] ?_ (by simp [hcode])
                unfold unicodeRound
                rw [if_neg hfour, hcode]
              | some code =>
                have hbound := toInt_lt (by decide) hcode
                rw [hlength] at hbound
                have hgroup (hcode' : 0 ≤ code) : ∀ n, toInt 16 (s.take 4) = some n → 0 ≤ n := by
                  intro n hn
                  rw [hcode] at hn
                  injection hn with hn
                  exact hn ▸ hcode'
                by_cases hhigh : 0xd800 ≤ code ∧ code ≤ 0xdbff
                . by_cases hten : s.length < 10
                  . have hnone : unicodeGroups (s.drop 4) = [] :=
                      unicodeGroups_of_length_lt (by rw [List.length_drop]; omega)
                    have hheld : decodeRound (backslash :: smallU :: s) = .stop := by
                      rw [hround, unicodeRound, if_neg hfour, hcode]
                      dsimp only
                      rw [if_pos hhigh, if_pos hten]
                    rw [decode_of_stop hheld, hnone, List.forall_mem_cons]
                    simpa using hgroup (by omega)
                  . cases hlow : lowSurrogate ((s.drop 4).take 6) with
                    | none =>
                      refine @hgoesOn [replacement] ?_ (hgroup (by omega))
                      unfold unicodeRound
                      rw [if_neg hfour, hcode]
                      dsimp only
                      rw [if_pos hhigh, if_neg hten, hlow]
                    | some low =>
                      have ⟨hstart, hvalue, hle, hge⟩ := lowSurrogate_eq_some hlow
                      have ⟨c, hc⟩ := @chr_of_bounds (0x10000 + (code - 0xd800) * 0x400 + (low - 0xdc00))
                        (by omega) (by omega)
                      have hpair : decodeRound (backslash :: smallU :: s) = .next [c] (s.drop 10) := by
                        rw [hround, unicodeRound, if_neg hfour, hcode]
                        dsimp only
                        rw [if_pos hhigh, if_neg hten, hlow]
                        dsimp only
                        rw [hc]
                      have hgroups : unicodeGroups (s.drop 4)
                          = ((s.drop 4).take 6).drop 2 :: unicodeGroups (s.drop 10) := by
                        have htwo : s.drop 4 = backslash :: smallU :: (s.drop 6) := by
                          have hsplit := List.take_append_drop 2 (s.drop 4)
                          rw [List.take_take, show min 2 6 = 2 from rfl] at hstart
                          rw [hstart, List.drop_drop] at hsplit
                          exact hsplit.symm
                        rw [htwo, unicodeGroups_unicode, if_neg (by rw [List.length_drop]; omega), List.drop_drop]
                        rfl
                      rw [decode_of_next hpair, isOk_map_iff, isOk_decode_iff (s.drop 10), hgroups,
                        List.forall_mem_cons, List.forall_mem_cons]
                      constructor
                      . intro h
                        refine ⟨hgroup (by omega), ?_, h⟩
                        intro n hn
                        rw [hvalue] at hn
                        injection hn with hn
                        omega
                      . exact fun h => h.right.right
                . by_cases hlone : 0xdc00 ≤ code ∧ code ≤ 0xdfff
                  . refine @hgoesOn [replacement] ?_ (hgroup (by omega))
                    unfold unicodeRound
                    rw [if_neg hfour, hcode]
                    dsimp only
                    rw [if_neg hhigh, if_pos hlone]
                  . cases hchr : chr code with
                    | some c =>
                      have hnonneg : 0 ≤ code := by
                        by_contra hneg
                        rw [(chr_eq_none_iff (by omega)).mpr (by omega)] at hchr
                        cases hchr
                      refine @hgoesOn [c] ?_ (hgroup hnonneg)
                      unfold unicodeRound
                      rw [if_neg hfour, hcode]
                      dsimp only
                      rw [if_neg hhigh, if_neg hlone, hchr]
                    | none =>
                      have hneg := (chr_eq_none_iff (by omega)).mp hchr
                      have hraise : decodeRound (backslash :: smallU :: s) = .raise := by
                        rw [hround, unicodeRound, if_neg hfour, hcode]
                        dsimp only
                        rw [if_neg hhigh, if_neg hlone, hchr]
                      rw [decode_of_raise hraise]
                      refine iff_of_false (by simp) fun h => ?_
                      have := h _ List.mem_cons_self code hcode
                      omega
termination_by raw.length
decreasing_by
  all_goals simp only [List.length_cons, List.length_drop] at *
  all_goals omega

end Escapes

section Growth

/--
Decoding the text so far does not raise, and neither does it once more has arrived, which does not take
back any of what was decoded.
-/
def Grows (raw more : PyStr) : Prop :=
  ∃ content longer, partialEnvelopeContent raw = .ok content ∧ partialEnvelopeContent (raw ++ more) = .ok longer
    ∧ content <+: longer

theorem map_eq_ok {out c : PyStr} {r : Except ValueError PyStr} (h : r.map (fun more => out ++ more) = .ok c)
    : ∃ more, r = .ok more ∧ c = out ++ more := by
  cases r with
  | error e => cases h
  | ok more =>
    injection h with h
    exact ⟨more, rfl, h.symm⟩

/--
A longer text repeats every complete round, and only what was held back may turn out otherwise.
-/
theorem decode_mono {raw more content longer : PyStr} (h : decode raw = .ok content)
    (hlonger : decode (raw ++ more) = .ok longer) : content <+: longer := by
  cases hround : decodeRound raw with
  | stop =>
    rw [decode_of_stop hround] at h
    injection h with h
    rw [← h]
    exact List.nil_prefix
  | raise =>
    rw [decode_of_raise hround] at h
    cases h
  | next out rest =>
    rw [decode_of_next hround] at h
    rw [decode_of_next (decodeRound_next_append hround more)] at hlonger
    have ⟨tail, htail, heq⟩ := map_eq_ok h
    have ⟨tail', htail', heq'⟩ := map_eq_ok hlonger
    have := length_lt_of_decodeRound hround
    rw [heq, heq', List.prefix_append_right_inj]
    exact decode_mono htail htail'
termination_by raw.length

theorem partialEnvelopeContent_mono {raw more content longer : PyStr} (h : partialEnvelopeContent raw = .ok content)
    (hlonger : partialEnvelopeContent (raw ++ more) = .ok longer) : content <+: longer := by
  unfold partialEnvelopeContent at h
  split at h
  . injection h with h
    rw [← h]
    exact List.nil_prefix
  . next rest hsearch =>
    rw [partialEnvelopeContent, searchField_append hsearch more] at hlonger
    exact decode_mono h hlonger

theorem isOk_partialEnvelopeContent_iff (raw : PyStr)
    : (∃ content, partialEnvelopeContent raw = .ok content) ↔ NoNegativeEscape raw := by
  unfold partialEnvelopeContent NoNegativeEscape
  cases searchField raw with
  | none => simp
  | some rest => simp [isOk_decode_iff]

theorem NoNegativeEscape.of_append {raw more : PyStr} (h : NoNegativeEscape (raw ++ more)) : NoNegativeEscape raw := by
  intro rest hsearch group hgroup
  exact h (rest ++ more) (searchField_append hsearch more) group (unicodeGroups_subset_append rest more hgroup)

/--
The decoded text grows if and only if no escape in all of the text is read as a negative number.
-/
theorem grows_iff_noNegativeEscape (raw more : PyStr) : Grows raw more ↔ NoNegativeEscape (raw ++ more) := by
  constructor
  . rintro ⟨_, longer, _, hlonger, _⟩
    exact (isOk_partialEnvelopeContent_iff _).mp ⟨longer, hlonger⟩
  . intro h
    have ⟨content, hcontent⟩ := (isOk_partialEnvelopeContent_iff raw).mpr h.of_append
    have ⟨longer, hlonger⟩ := (isOk_partialEnvelopeContent_iff (raw ++ more)).mpr h
    exact ⟨content, longer, hcontent, hlonger, partialEnvelopeContent_mono hcontent hlonger⟩

/--
`int("-001", 16)` is a number, but not one that `chr` takes.
-/
theorem not_grows : ¬ ∀ raw more, Grows raw more := by
  intro h
  have ⟨content, _, hcontent, _⟩ := h (py "\x7b\"content\": \"\\u-001") []
  have hraise : partialEnvelopeContent (py "\x7b\"content\": \"\\u-001") = .error .chrRange := by
    have hsearch : searchField (py "\x7b\"content\": \"\\u-001") = some (py "\\u-001") := by
      decide +kernel
    unfold partialEnvelopeContent
    rw [hsearch]
    exact decode_of_raise (by decide +kernel)
  rw [hraise] at hcontent
  cases hcontent

end Growth

end EnvelopeContent
