import Legalise.Python.Str

/-!
This module contains the hash function of the repository.
-/

/--
SHA-256 of a text, as a hex digest of its UTF-8 bytes. That a digest has 64 digits is left out: it
could not be injective then.
-/
structure Sha256 where
  hexdigest : PyStr → PyStr
  isHexDigit_of_mem_hexdigest : ∀ text, ∀ c ∈ hexdigest text, IsHexDigit c

namespace Sha256

theorem utf8Encodable_hexdigest (H : Sha256) (text : PyStr) : Utf8Encodable (H.hexdigest text) :=
  utf8Encodable_of_isHexDigit (H.isHexDigit_of_mem_hexdigest text)

/--
A digest without collisions for concrete runs: the code points of the text in hex.
-/
def plain : Sha256 where
  hexdigest text := text.flatMap fun c => (fixedDigits 16 6 c.val).map digitPoint
  isHexDigit_of_mem_hexdigest text := by
    intro c hc
    have ⟨d, _, hd⟩ := List.mem_flatMap.mp hc
    have ⟨digit, hdigit, heq⟩ := List.mem_map.mp hd
    rw [← heq]
    exact isHexDigit_digitPoint (lt_base_of_mem_fixedDigits (by omega) hdigit)

theorem plain_injective : Function.Injective plain.hexdigest := by
  have hdelimiting : SelfDelimiting fun c : CodePoint => (fixedDigits 16 6 c.val).map digitPoint := by
    intro a b r s hab
    have ⟨hdigits, hrest⟩ := List.append_inj hab (by simp)
    have hlt (c : CodePoint) : c.val < 16 ^ 6 := by omega
    exact ⟨Fin.ext (map_digitPoint_inj (by omega) (by omega) (hlt a) (hlt b) hdigits), hrest⟩
  intro s t hst
  have hlen : s.length = t.length := by
    have := congrArg List.length hst
    simp only [plain, List.length_flatMap, List.length_map, length_fixedDigits, List.map_const',
      List.sum_replicate, smul_eq_mul] at this
    omega
  have := hdelimiting.flatMap_append_inj hlen (r := []) (s := []) (by
    rw [List.append_nil, List.append_nil]
    exact hst)
  exact this.left

end Sha256
