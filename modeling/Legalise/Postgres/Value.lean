import Legalise.Python.Json

/-!
This module contains the column values of the database and how Python and Postgres write them.
-/

/--
A `uuid`.
-/
structure Uuid where
  int : Nat
  int_lt : int < 2 ^ 128
  deriving DecidableEq

instance : LawfulBEq (Uuid × PyStr) := inferInstance

namespace Uuid

theorem mod_lt (n : Nat) : n % 2 ^ 128 < 2 ^ 128 := Nat.mod_lt n (by decide)

def ofNat (n : Nat) : Uuid where
  int := n % 2 ^ 128
  int_lt := mod_lt n

@[simp]
theorem ofNat_inj_iff (m n : Nat) : ofNat m = ofNat n ↔ m % 2 ^ 128 = n % 2 ^ 128 := by
  simp [ofNat]

theorem nodup_nil : ([] : List Uuid).Nodup := List.nodup_nil

/--
`str(uuid)`: slices of `'%032x' % self.int`.
-/
def str (u : Uuid) : PyStr :=
  let hex := zfill 32 (digitsText 16 u.int)
  hex.take 8 ++ py "-" ++ (hex.drop 8).take 4 ++ py "-" ++ (hex.drop 12).take 4 ++ py "-"
    ++ (hex.drop 16).take 4 ++ py "-" ++ hex.drop 20

/--
The byte at an index, from the most significant one on.
-/
def byte (u : Uuid) (i : Nat) : Nat :=
  u.int / 256 ^ (15 - i) % 256

/--
`uuid_out` of Postgres: every byte as two digits, with hyphens in front of some.
-/
def out (u : Uuid) : PyStr :=
  (List.range 16).flatMap fun i =>
    (if i = 4 ∨ i = 6 ∨ i = 8 ∨ i = 10 then py "-" else [])
      ++ [digitPoint (u.byte i / 16), digitPoint (u.byte i % 16)]

theorem hex_eq (u : Uuid)
    : zfill 32 (digitsText 16 u.int) = (fixedDigits 16 32 u.int).map digitPoint := by
  apply zfill_digitsText (by omega) (by omega)
  have := u.int_lt
  norm_num at this ⊢
  exact this

theorem str_eq_out (u : Uuid) : u.str = u.out := by
  have hbytes : fixedDigits 256 16 u.int = (List.range 16).map u.byte :=
    fixedDigits_eq_map_range 16 u.int
  have hhex : (fixedDigits 16 32 u.int).map digitPoint
      = (List.range 16).flatMap fun i =>
        [digitPoint (u.byte i / 16), digitPoint (u.byte i % 16)] := by
    rw [fixedDigits_two_mul 16 u.int, hbytes, List.flatMap_map, List.map_flatMap]
    rfl
  unfold str
  rw [hex_eq, hhex]
  rfl

theorem slices_eq (hex : PyStr)
    : hex.take 8 ++ ((hex.drop 8).take 4 ++ ((hex.drop 12).take 4 ++ ((hex.drop 16).take 4
        ++ hex.drop 20))) = hex := by
  have h (n : Nat) : (hex.drop n).take 4 ++ hex.drop (n + 4) = hex.drop n := by
    rw [← List.drop_drop, List.take_append_drop]
  rw [h 16, h 12, h 8, List.take_append_drop]

theorem str_injective : Function.Injective str := by
  intro u v huv
  have hlt (w : Uuid) : w.int < 16 ^ 32 := by
    have := w.int_lt
    norm_num at this ⊢
    exact this
  have hlen (w : Uuid) : (zfill 32 (digitsText 16 w.int)).length = 32 := by
    rw [hex_eq]
    simp
  have hlens (m n : Nat)
      : (((zfill 32 (digitsText 16 u.int)).drop m).take n).length
        = (((zfill 32 (digitsText 16 v.int)).drop m).take n).length := by
    rw [List.length_take, List.length_drop, hlen, List.length_take, List.length_drop, hlen]
  have hhex : zfill 32 (digitsText 16 u.int) = zfill 32 (digitsText 16 v.int) := by
    unfold str at huv
    have h₀ := hlens 0 8
    simp only [List.drop_zero] at h₀
    -- The parts between the hyphens are equally long, so they are split off from the right.
    have ⟨huv, h₅⟩ := List.append_inj huv (by simp [h₀, hlens])
    have ⟨huv, _⟩ := List.append_inj huv (by simp [h₀, hlens])
    have ⟨huv, h₄⟩ := List.append_inj huv (by simp [h₀, hlens])
    have ⟨huv, _⟩ := List.append_inj huv (by simp [h₀, hlens])
    have ⟨huv, h₃⟩ := List.append_inj huv (by simp [h₀, hlens])
    have ⟨huv, _⟩ := List.append_inj huv (by simp [h₀, hlens])
    have ⟨huv, h₂⟩ := List.append_inj huv (by simp [h₀])
    have ⟨h₁, _⟩ := List.append_inj huv h₀
    rw [← slices_eq (zfill 32 (digitsText 16 u.int)), h₁, h₂, h₃, h₄, h₅, slices_eq]
  rw [hex_eq, hex_eq] at hhex
  have := map_digitPoint_inj (by omega) (by omega) (hlt u) (hlt v) hhex
  cases u
  cases v
  simpa using this

theorem utf8Encodable_str (u : Uuid) : Utf8Encodable u.str := by
  have hhex : Utf8Encodable (zfill 32 (digitsText 16 u.int)) := utf8Encodable_zfill_digitsText 32 16 _
  unfold str
  simp only [utf8Encodable_append, utf8Encodable_py, and_true]
  exact ⟨⟨⟨⟨hhex.take 8, (hhex.drop 8).take 4⟩, (hhex.drop 12).take 4⟩, (hhex.drop 16).take 4⟩,
    hhex.drop 20⟩

end Uuid

def daysInMonth (year month : Nat) : Nat :=
  if month = 2 then
    if year % 4 = 0 ∧ (year % 100 ≠ 0 ∨ year % 400 = 0) then 29 else 28
  else if month = 4 ∨ month = 6 ∨ month = 9 ∨ month = 11 then 30
  else 31

/--
A `timestamptz` as the UTC date and time it stands for, in the range of Python's `datetime`.
-/
structure Timestamp where
  year : Nat
  month : Nat
  day : Nat
  hour : Nat
  minute : Nat
  second : Nat
  microsecond : Nat
  year_mem : 1 ≤ year ∧ year ≤ 9999
  month_mem : 1 ≤ month ∧ month ≤ 12
  day_mem : 1 ≤ day ∧ day ≤ daysInMonth year month
  hour_lt : hour < 24
  minute_lt : minute < 60
  second_lt : second < 60
  microsecond_lt : microsecond < 1000000
  deriving DecidableEq

namespace Timestamp

/--
The timestamp of a date and a time that exist.
-/
def ofFields? (year month day hour minute second microsecond : Nat) : Option Timestamp :=
  if h : (1 ≤ year ∧ year ≤ 9999) ∧ (1 ≤ month ∧ month ≤ 12)
      ∧ (1 ≤ day ∧ day ≤ daysInMonth year month) ∧ hour < 24 ∧ minute < 60 ∧ second < 60
      ∧ microsecond < 1000000 then
    some ⟨year, month, day, hour, minute, second, microsecond, h.left, h.right.left,
      h.right.right.left, h.right.right.right.left, h.right.right.right.right.left,
      h.right.right.right.right.right.left, h.right.right.right.right.right.right⟩
  else none

def newYear : Timestamp := (ofFields? 2026 1 1 0 0 0 0).get rfl

def endOfFebruary : Timestamp := (ofFields? 2026 2 28 12 0 0 0).get rfl

/--
A number that orders timestamps in time.
-/
def rank (t : Timestamp) : Nat :=
  (((((t.year * 13 + t.month) * 32 + t.day) * 24 + t.hour) * 60 + t.minute) * 60 + t.second)
    * 1000000 + t.microsecond

/--
The part that all formats share, from the month to the second.
-/
def afterYear (t : Timestamp) : PyStr :=
  py "-" ++ zfill 2 (pyNat t.month) ++ py "-" ++ zfill 2 (pyNat t.day) ++ py "T"
    ++ zfill 2 (pyNat t.hour) ++ py ":" ++ zfill 2 (pyNat t.minute) ++ py ":"
    ++ zfill 2 (pyNat t.second)

/--
`strftime("%Y-%m-%dT%H:%M:%S.%fZ")`, where `%Y` does not fill up the year.
-/
def strftime (t : Timestamp) : PyStr :=
  pyNat t.year ++ t.afterYear ++ py "." ++ zfill 6 (pyNat t.microsecond) ++ py "Z"

/--
`to_char(.., 'YYYY-MM-DD"T"HH24:MI:SS.US"Z"')` of Postgres, where `YYYY` fills up the year.
-/
def toChar (t : Timestamp) : PyStr :=
  zfill 4 (pyNat t.year) ++ t.afterYear ++ py "." ++ zfill 6 (pyNat t.microsecond) ++ py "Z"

/--
`isoformat()` of a `datetime` in UTC. Whole seconds are written without a fraction.
-/
def isoformat (t : Timestamp) : PyStr :=
  zfill 4 (pyNat t.year) ++ t.afterYear
    ++ (if t.microsecond = 0 then [] else py "." ++ zfill 6 (pyNat t.microsecond))
    ++ py "+00:00"

theorem strftime_eq_toChar {t : Timestamp} (h : 1000 ≤ t.year) : t.strftime = t.toChar := by
  have : zfill 4 (pyNat t.year) = pyNat t.year :=
    zfill_digitsText_of_le (show 1 < 10 by omega) (show 0 < 4 by omega) h
  unfold strftime toChar
  rw [this]

theorem utf8Encodable_zfill_pyNat (width n : Nat) : Utf8Encodable (zfill width (pyNat n)) :=
  utf8Encodable_zfill_digitsText width 10 n

theorem utf8Encodable_afterYear (t : Timestamp) : Utf8Encodable t.afterYear := by
  simp [afterYear, utf8Encodable_zfill_pyNat]

theorem utf8Encodable_strftime (t : Timestamp) : Utf8Encodable t.strftime := by
  simp [strftime, utf8Encodable_afterYear, utf8Encodable_zfill_pyNat]

theorem utf8Encodable_isoformat (t : Timestamp) : Utf8Encodable t.isoformat := by
  unfold isoformat
  split <;> simp [utf8Encodable_afterYear, utf8Encodable_zfill_pyNat]

end Timestamp

/--
A `text` of a UTF-8 database.
-/
structure PgText where
  val : PyStr
  utf8Encodable : Utf8Encodable val
  deriving DecidableEq

/--
The `char(64)` of a hash column, which a check constraint restricts to hex digits.
-/
structure PgHash where
  val : PyStr
  isHexDigit : ∀ c ∈ val, IsHexDigit c
  deriving DecidableEq

theorem PgHash.utf8Encodable (h : PgHash) : Utf8Encodable h.val :=
  utf8Encodable_of_isHexDigit h.isHexDigit

/--
A `jsonb`: its `::text`, which is never empty, and the value that the driver decodes it to.
-/
structure Jsonb where
  text : PgText
  text_ne_nil : text.val ≠ []
  value : Json
  distinctKeys : value.DistinctKeys

/--
The cast of a `character(n)` to `text`, which drops trailing blanks.
-/
def bpcharText (s : PyStr) : PyStr :=
  s.rdropWhile (· = CodePoint.ofChar ' ')

theorem bpcharText_eq_self {s : PyStr} (h : ∀ c ∈ s, c ≠ CodePoint.ofChar ' ') : bpcharText s = s := by
  unfold bpcharText
  rw [List.rdropWhile_eq_self_iff]
  intro hne
  simpa using h _ (List.getLast_mem hne)

theorem PgHash.bpcharText_eq (h : PgHash) : bpcharText h.val = h.val := by
  apply bpcharText_eq_self
  intro c hc hblank
  have : ¬ IsHexDigit (CodePoint.ofChar ' ') := by decide
  exact this (hblank ▸ h.isHexDigit c hc)

/--
`concat_ws(sep, ..)`, which skips null arguments.
-/
def concatWs (sep : PyStr) (args : List (Option PyStr)) : PyStr :=
  join sep (args.filterMap id)

theorem concatWs_map_some (sep : PyStr) (args : List PyStr) :
    concatWs sep (args.map some) = join sep args := by
  simp [concatWs, List.filterMap_map]
