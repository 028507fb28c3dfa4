import Mathlib.Tactic.Ring
import QueryBounds.Setting.Value

/-!
# Equal values

Values are compared by what they denote: numbers by their amount, a truth value counting as one or
zero, and mappings whatever the order of their entries. A value is equal to itself provided that no
mapping in it has a key twice. Values that are equal to the default of a setting are equal to each
other, and nothing that a limit asks of them tells them apart.
-/
namespace QueryBounds.Value

/-- Values in which every mapping has each of its keys once. -/
inductive IsProper : Value → Prop
  | null : IsProper .null
  | bool (b : Bool) : IsProper (.bool b)
  | int (n : Int) : IsProper (.int n)
  | decimal (d : Decimal) : IsProper (.decimal d)
  | text (s : String) : IsProper (.text s)
  | list {items : List Value} (h : ∀ item ∈ items, IsProper item) : IsProper (.list items)
  | dict {entries : List (String × Value)} (hkeys : (entries.map (·.1)).Nodup)
    (h : ∀ e ∈ entries, IsProper e.2) : IsProper (.dict entries)
  | hook (h : Hook) : IsProper (.hook h)

theorem sameItems_self {items : List Value} (h : ∀ item ∈ items, item.same item = true) :
    sameItems items items = true := by
  induction items with
  | nil => rfl
  | cons item items ih =>
    obtain ⟨hitem, hitems⟩ := List.forall_mem_cons.1 h
    rw [sameItems, hitem, ih hitems]
    rfl

theorem lookup_of_mem {entries : List (String × Value)} (hkeys : (entries.map (·.1)).Nodup)
    {e : String × Value} (he : e ∈ entries) : entries.lookup e.1 = some e.2 := by
  induction entries with
  | nil => cases he
  | cons first entries ih =>
    obtain ⟨hnew, hrest⟩ := List.nodup_cons.1 hkeys
    rcases List.mem_cons.1 he with rfl | he
    · rw [List.lookup_cons, beq_self_eq_true]
    · have hne : e.1 ≠ first.1 := fun heq => hnew (List.mem_map.2 ⟨e, he, heq⟩)
      rw [List.lookup_cons, beq_false_of_ne hne, ih hrest he]

/-- Entries that a mapping holds, each equal to itself, are all found in it. -/
theorem sameEntries_of_lookup {es fs : List (String × Value)}
    (h : ∀ e ∈ es, fs.lookup e.1 = some e.2 ∧ e.2.same e.2 = true) : sameEntries es fs = true := by
  induction es with
  | nil => rfl
  | cons e es ih =>
    obtain ⟨⟨hlookup, hsame⟩, hrest⟩ := List.forall_mem_cons.1 h
    obtain ⟨key, v⟩ := e
    simp only [sameEntries, hlookup, hsame, ih hrest, Bool.and_self]

/-- A proper value is equal to itself. -/
theorem IsProper.same_self {v : Value} (h : v.IsProper) : v.same v = true := by
  induction h with
  | null => rfl
  | bool b => simp [same, amount?]
  | int n => simp [same, amount?]
  | decimal d => simp [same, amount?]
  | text s => simp [same]
  | list h ih =>
    rw [same]
    exact sameItems_self ih
  | dict hkeys h ih =>
    rw [same, sameEntries_of_lookup fun e he => ⟨lookup_of_mem hkeys he, ih e he⟩]
    simp
  | hook h => simp [same]

/-! ## Equality with a default -/

variable {v w : Value} {b : Bool}

theorem eq_null_of_same (h : v.same .null = true) : v = .null := by
  cases v <;> simp [same, amount?] at h ⊢

theorem eq_text_of_same {s : String} (h : v.same (.text s) = true) : v = .text s := by
  cases v <;> simp [same, amount?] at h ⊢
  exact h

theorem eq_nil_of_same (h : v.same (.list []) = true) : v = .list [] := by
  cases v with
  | list items => cases items <;> simp [same, sameItems] at h ⊢
  | _ => simp [same, amount?] at h

/-- What is equal to a truth value denotes the amount that counts for it. -/
theorem amount_of_same_bool (h : v.same (.bool b) = true) :
    ∃ a p, v.amount? = some (a, p) ∧ a = (if b then 1 else 0) * Decimal.scale p := by
  have hscale : Decimal.scale 0 = 1 := rfl
  cases v with
  | bool c => exact ⟨_, _, rfl, by simpa [same, amount?, hscale] using h⟩
  | int n => exact ⟨_, _, rfl, by simpa [same, amount?, hscale] using h⟩
  | decimal d => exact ⟨_, _, rfl, by simpa [same, amount?, hscale] using h⟩
  | _ => simp [same, amount?] at h

theorem same_of_amounts {a b : Int} {p q : Nat} (hv : v.amount? = some (a, p))
    (hw : w.amount? = some (b, q)) :
    v.same w = (a * Decimal.scale q == b * Decimal.scale p) := by
  cases v with
  | bool c => cases w <;> cases hv <;> cases hw <;> rfl
  | int n => cases w <;> cases hv <;> cases hw <;> rfl
  | decimal d => cases w <;> cases hv <;> cases hw <;> rfl
  | _ => cases hv

/-- Values equal to the same truth value are equal to each other. -/
theorem same_of_same_bool (hv : v.same (.bool b) = true) (hw : w.same (.bool b) = true) :
    v.same w = true := by
  obtain ⟨a, p, ha, rfl⟩ := amount_of_same_bool hv
  obtain ⟨c, q, hc, rfl⟩ := amount_of_same_bool hw
  rw [same_of_amounts ha hc, beq_iff_eq]
  ring

/-- A value with an amount holds just if the amount is not zero. -/
theorem holds_iff_of_amount {a : Int} {p : Nat} (h : v.amount? = some (a, p)) :
    v.holds = true ↔ a ≠ 0 := by
  cases v with
  | bool c => cases h; cases c <;> decide
  | int n => cases h; simp [holds]
  | decimal d =>
    cases h
    by_cases hneg : d.negative = true
    · simp [holds, Decimal.numerator, hneg]
    · simp [holds, Decimal.numerator, hneg]
  | _ => cases h

theorem holds_of_same_bool (h : v.same (.bool b) = true) : v.holds = b := by
  obtain ⟨a, p, ha, rfl⟩ := amount_of_same_bool h
  have hscale : (Decimal.scale p : Int) ≠ 0 := by
    exact_mod_cast (Nat.pow_pos (by decide : 0 < 10)).ne'
  rw [Bool.eq_iff_iff, holds_iff_of_amount ha]
  cases b with
  | false => simp
  | true => simpa using hscale

theorem isHashable_of_same_bool (h : v.same (.bool b) = true) : v.isHashable = true := by
  obtain ⟨a, p, ha, -⟩ := amount_of_same_bool h
  cases v with
  | list items => cases ha
  | dict entries => cases ha
  | _ => rfl

end QueryBounds.Value
