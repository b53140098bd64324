import DotGraph.Attribute
import DotGraph.Proofs.Text.Bareness
import Mathlib.Data.List.Nodup
set_option autoImplicit false

namespace DotGraph

open Text

theorem isDigit_digitChar_mod (n : Nat) : (Nat.digitChar (n % 10)).isDigit = true := by
  rw [Nat.isDigit_digitChar, decide_eq_true_eq]
  exact Nat.mod_lt n (by omega)

theorem isDigits_repr (n : Nat) : IsDigits (Nat.repr n).toList := by
  rw [Nat.toList_repr]
  constructor
  · intro h
    have hr : Nat.repr n = "" := by rw [← String.toList_inj, Nat.toList_repr, h]; rfl
    exact Nat.repr_ne_empty hr
  · intro c hc
    exact Nat.isDigit_of_mem_toDigits (by omega) (by omega) hc

theorem isUnsigned_hundredthsText (n : Nat) : IsUnsigned (hundredthsText n).toList := by
  refine .inr (.inr ⟨(Nat.repr (n / 100)).toList,
    [Nat.digitChar (n / 10 % 10), Nat.digitChar (n % 10)], ?_, isDigits_repr _, ?_⟩)
  · simp [hundredthsText]
  · intro c hc
    simp only [List.mem_cons, List.not_mem_nil, or_false] at hc
    rcases hc with rfl | rfl <;> exact isDigit_digitChar_mod _

theorem Binary64.isBare_text {x : Binary64} (h : x.isFinite = true) : isBare x.text = true := by
  rw [isBare_iff, text_of_isFinite h]
  refine .inr ⟨(hundredthsText x.hundredths).toList, ?_, isUnsigned_hundredthsText _⟩
  cases x.isNegative <;> simp

theorem Shape.isBare_name (s : Shape) : isBare s.name = true := by cases s <;> decide

theorem Arrow.isBare_name (a : Arrow) : isBare a.name = true := by cases a <;> decide

theorem Attribute.Kind.isBare_key {k : Kind} (h : ∀ n, k ≠ .custom n) : isBare k.key = true := by
  cases k with
  | custom n => exact absurd rfl (h n)
  | _ => decide

theorem Style.isPlain_text {target : StyleTarget} (s : Style target) : IsPlain s.text := by
  have hf : target.flags.all (fun n => n.toList.all fun c => !isSpecial c && c != '\r') = true := by
    cases target <;> decide
  apply IsPlain.intercalate
  · exact isPlain_of_all (by decide)
  · intro n hn
    obtain ⟨f, hm, rfl⟩ := List.mem_map.mp hn
    have hm := List.fst_mem_of_mem_zipIdx (List.mem_filter.mp hm).1
    exact isPlain_of_all (List.all_eq_true.mp hf _ hm)

theorem Color.isPlain_channelText (b : UInt8) : IsPlain (channelText b) := by
  have hd : ∀ n < 16, isBareChar (Nat.digitChar n) = true := by decide
  have hb := b.toNat_lt
  apply isPlain_of_isBareChar
  intro c hc
  simp only [channelText, String.toList_ofList, List.mem_cons, List.not_mem_nil, or_false] at hc
  rcases hc with rfl | rfl
  · exact hd _ (by omega)
  · exact hd _ (Nat.mod_lt _ (by omega))

theorem Color.isPlain_hex (c : Color) : IsPlain c.hex := by
  have hs : IsPlain "#" := isPlain_of_all (by decide)
  have hc := isPlain_channelText
  apply (((hs.append (hc _)).append (hc _)).append (hc _)).append
  split
  · simp [IsPlain]
  · exact hc _

theorem Point.isPlain_text {p : Point} (hx : p.x.isFinite = true) (hy : p.y.isFinite = true) :
    IsPlain (p.x.text ++ "," ++ p.y.text ++ "!") := by
  have hc : IsPlain "," := isPlain_of_all (by decide)
  have he : IsPlain "!" := isPlain_of_all (by decide)
  have hx := isPlain_of_isBare (Binary64.isBare_text hx)
  have hy := isPlain_of_isBare (Binary64.isBare_text hy)
  exact ((hx.append hc).append hy).append he

/-- What stands in front of the first equals sign. -/
def Text.keyOf (s : String) : String := String.ofList (s.toList.takeWhile (· != '='))

/-- The kind has no name that its caller has made up. -/
def Attribute.Kind.Named (k : Attribute.Kind) : Prop := ∀ n, k ≠ .custom n

theorem Attribute.keyOf_text {a : Attribute} (h : a.kind.Named) (mode : Text.StringMode) :
    Text.keyOf (a.text mode) = a.kind.key := by
  have hk : ∀ c ∈ a.kind.key.toList, (c != '=') = true := by
    intro c hc
    rw [bne_iff_ne]
    rintro rfl
    exact absurd (Text.isBareChar_of_mem (Kind.isBare_key h) '=' hc) (by decide)
  have ht : (a.text mode).toList = a.kind.key.toList ++ '=' :: (a.valueText mode).toList := by
    simp [text]
  rw [Text.keyOf, ht, List.takeWhile_append_of_pos hk, List.takeWhile_cons_of_neg (by simp),
    List.append_nil, String.ofList_toList]

namespace Attribute.Kind

variable {j k : Kind} {l : List Kind}

theorem text_custom_ne (n : String) (hk : k.Named) : (custom n).text ≠ k.text := by
  intro h
  have ht := congrArg (fun s => s.toList.take 7) h
  have hc : (custom n).text.toList.take 7 = "custom(".toList := by simp [text]
  simp only [hc] at ht
  cases k with
  | custom m => exact absurd rfl (hk m)
  | _ => exact absurd ht (by decide)

theorem text_injective : Function.Injective text := by
  intro j k h
  cases j with
  | custom m =>
    cases k with
    | custom n =>
      have hl : m.toList ++ [')'] = n.toList ++ [')'] := by
        simpa [text, ← String.toList_inj] using h
      rw [String.toList_inj.mp (List.append_cancel_right hl)]
    | _ => exact absurd h (text_custom_ne m (by simp [Named]))
  | _ =>
    cases k with
    | custom n => exact absurd h.symm (text_custom_ne n (by simp [Named]))
    | _ => first
      | rfl
      | exact absurd h (by decide)

theorem eq_of_append_text {s t : String} (h : s ++ j.text ++ t = s ++ k.text ++ t) : j = k := by
  simp only [← String.toList_inj, String.toList_append, List.append_assoc] at h
  have ht := List.append_cancel_right (List.append_cancel_left h)
  exact text_injective (String.toList_inj.mp ht)

theorem eq_of_key_eq (hj : j.Named) (hk : k.Named) (hs : k.key ≠ "style") (h : j.key = k.key) :
    j = k := by
  cases j with
  | custom n => exact absurd rfl (hj n)
  | _ =>
    cases k with
    | custom n => exact absurd rfl (hk n)
    | _ => first
      | rfl
      | exact absurd rfl hs
      | exact absurd h (by decide)

theorem count_keys_of_ne_style (h : ∀ k ∈ l, k.Named) (hk : k ∈ l) (hs : k.key ≠ "style") :
    (l.map key).count k.key = l.count k := by
  rw [List.count_eq_countP, List.count_eq_countP, List.countP_map]
  apply List.countP_congr
  intro j hj
  simp only [Function.comp_apply, beq_iff_eq]
  constructor
  · exact eq_of_key_eq (h j hj) (h k hk) hs
  · exact fun e => congrArg key e

/-- Each of the styles adds its own to the number of their common keys. -/
theorem count_keys_style (h : ∀ k ∈ l, k.Named) :
    (l.map key).count "style" =
      l.count .nodeStyle + l.count .edgeStyle + l.count .subgraphStyle := by
  induction l with
  | nil => rfl
  | cons k l ih =>
    have hl := ih fun k hk => h k (List.mem_cons_of_mem _ hk)
    cases k with
    | custom n => exact absurd rfl (h _ List.mem_cons_self n)
    | nodeStyle | edgeStyle | subgraphStyle =>
      simp only [List.map_cons, key, List.count_cons, hl]
      simp
      omega
    | _ => simp [hl, key]

theorem count_keys_le_one (hn : l.Nodup) (h : ∀ k ∈ l, k.Named) {s : String} (hs : s ≠ "style") :
    (l.map key).count s ≤ 1 := by
  by_cases hm : s ∈ l.map key
  · obtain ⟨k, hk, rfl⟩ := List.mem_map.mp hm
    rw [count_keys_of_ne_style h hk hs]
    exact List.nodup_iff_count_le_one.mp hn k
  · rw [List.count_eq_zero.mpr hm]
    exact Nat.zero_le 1

theorem nodup_keys_iff (hn : l.Nodup) (h : ∀ k ∈ l, k.Named) :
    (l.map key).Nodup ↔ l.count .nodeStyle + l.count .edgeStyle + l.count .subgraphStyle ≤ 1 := by
  rw [← count_keys_style h, List.nodup_iff_count_le_one]
  constructor
  · exact fun hc => hc "style"
  · intro hc s
    by_cases hs : s = "style"
    · rw [hs]
      exact hc
    · exact count_keys_le_one hn h hs

end Attribute.Kind

end DotGraph
