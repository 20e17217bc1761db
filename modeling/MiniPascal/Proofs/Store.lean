import MiniPascal.Store

/-!
# The entries of a store

The order of the names is that of their bytes: a character of a greater code point has a greater encoding at the first
byte where the two encodings differ (`utf8EncodeChar_lt`).

* `Store.ascending_bytes`: the names ascend strictly, byte by byte.
* `Store.mem_entries`: the entries are what can be read.
-/

namespace MiniPascal

/-! ## Order of bytes -/

/-- The bytes of a text. -/
def textBytes (s : String) : List UInt8 := s.toUTF8.data.toList

theorem textBytes_eq (s : String) : textBytes s = s.toList.flatMap String.utf8EncodeChar := by
  have h : s.toByteArray = s.toList.utf8Encode := by
    rw [← String.toByteArray_ofList, String.ofList_toList]
  simp [textBytes, String.toUTF8, h, List.utf8Encode]

/-- Two lists of bytes are in order if their first bytes are, or if these are equal and the rest is in order. -/
theorem ofNat_cons_lt {a b : Nat} {s t : List UInt8} (hb : b < 256) (hle : a ≤ b) (h : a = b → s < t) :
    UInt8.ofNat a :: s < UInt8.ofNat b :: t := by
  rw [List.cons_lt_cons_iff]
  rcases Nat.lt_or_eq_of_le hle with hlt | heq
  · left
    rw [UInt8.lt_iff_toNat_lt, UInt8.toNat_ofNat', UInt8.toNat_ofNat']
    omega
  · exact .inr ⟨by rw [heq], h heq⟩

/-- Bytes are compared from the front, so what follows two characters does not matter. -/
theorem utf8EncodeChar_lt {c d : Char} (h : c < d) (s t : List UInt8) :
    String.utf8EncodeChar c ++ s < String.utf8EncodeChar d ++ t := by
  have hlt : c.val.toNat < d.val.toNat := UInt32.lt_iff_toNat_lt.mp h
  have hd : d.val.toNat < 1114112 := by
    rcases d.valid with h | h
    · exact Nat.lt_trans h (by decide)
    · exact h.2
  unfold String.utf8EncodeChar
  generalize c.val.toNat = n at hlt
  generalize d.val.toNat = m at hlt hd
  dsimp only
  -- a longer encoding starts with a greater byte; of two equally long ones, the digits to base 64 are compared in turn
  split
  · split
    · exact ofNat_cons_lt (by omega) (by omega) fun heq => by omega
    split
    · exact ofNat_cons_lt (by omega) (by omega) fun heq => by omega
    split
    · exact ofNat_cons_lt (by omega) (by omega) fun heq => by omega
    · exact ofNat_cons_lt (by omega) (by omega) fun heq => by omega
  split
  · split
    · omega
    split
    · refine ofNat_cons_lt (by omega) (by omega) fun h₁ => ?_
      exact ofNat_cons_lt (by omega) (by omega) fun h₂ => by omega
    split
    · exact ofNat_cons_lt (by omega) (by omega) fun heq => by omega
    · exact ofNat_cons_lt (by omega) (by omega) fun heq => by omega
  split
  · split
    · omega
    split
    · omega
    split
    · refine ofNat_cons_lt (by omega) (by omega) fun h₁ => ?_
      refine ofNat_cons_lt (by omega) (by omega) fun h₂ => ?_
      exact ofNat_cons_lt (by omega) (by omega) fun h₃ => by omega
    · exact ofNat_cons_lt (by omega) (by omega) fun heq => by omega
  · split
    · omega
    split
    · omega
    split
    · omega
    · refine ofNat_cons_lt (by omega) (by omega) fun h₁ => ?_
      refine ofNat_cons_lt (by omega) (by omega) fun h₂ => ?_
      refine ofNat_cons_lt (by omega) (by omega) fun h₃ => ?_
      exact ofNat_cons_lt (by omega) (by omega) fun h₄ => by omega

theorem flatMap_utf8EncodeChar_lt : ∀ {cs ds : List Char}, cs < ds →
    cs.flatMap String.utf8EncodeChar < ds.flatMap String.utf8EncodeChar
  | [], [], h => absurd h (List.lt_irrefl [])
  | [], d :: ds, _ => by
    obtain ⟨b, bs, hbs⟩ := List.exists_cons_of_ne_nil (String.utf8EncodeChar_ne_nil (c := d))
    rw [List.flatMap_nil, List.flatMap_cons, hbs]
    exact List.nil_lt_cons b _
  | c :: cs, [], h => absurd h (List.not_lt_nil _)
  | c :: cs, d :: ds, h => by
    rw [List.flatMap_cons, List.flatMap_cons]
    rcases List.cons_lt_cons_iff.mp h with hlt | ⟨rfl, htail⟩
    · exact utf8EncodeChar_lt hlt _ _
    · exact List.append_left_lt (flatMap_utf8EncodeChar_lt htail)

theorem textBytes_lt {s t : String} (h : s < t) : textBytes s < textBytes t := by
  have hchars : s.toList < t.toList := h
  rw [textBytes_eq, textBytes_eq]
  exact flatMap_utf8EncodeChar_lt hchars

namespace Store

theorem ascending_bytes (store : Store) : store.entries.Pairwise (textBytes ·.1 < textBytes ·.1) :=
  store.ascending.imp fun h => textBytes_lt h

/-! ## Entries -/

/-- In an ascending list, the first entry of a name is its only one. -/
theorem lookup_eq_some_iff {name : String} {value : Value} : ∀ {entries : List (String × Value)},
    entries.Pairwise (·.1 < ·.1) → (entries.lookup name = some value ↔ (name, value) ∈ entries)
  | [], _ => by simp
  | (key, other) :: others, h => by
    obtain ⟨hkey, hothers⟩ := List.pairwise_cons.mp h
    rw [lookup_entry, List.mem_cons, Prod.mk.injEq]
    by_cases hname : name = key
    · subst hname
      have hnone : (name, value) ∉ others := fun hmem => String.lt_irrefl name (hkey _ hmem)
      simp [hnone, eq_comm]
    · simp [hname, lookup_eq_some_iff hothers]

theorem mem_entries {store : Store} {name : String} {value : Value} :
    (name, value) ∈ store.entries ↔ store.get? name = some value :=
  (lookup_eq_some_iff store.ascending).symm

end Store

end MiniPascal
