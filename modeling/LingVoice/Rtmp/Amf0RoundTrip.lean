import LingVoice.Rtmp.Amf0
import Mathlib.Data.List.Nodup

/-!
# Amf0RoundTrip — `DecodeAMF0` on what `amfWriter` has written

The reader undoes the writer on every list of values, except that a map inside a map has become null
(`decodeAMF0_encodeAMF0`).  So a list comes back, in whatever order its maps were visited, exactly when no map of it
holds a map.
-/

namespace LingVoice.Rtmp

open List
open Lib (be16 be32 be64 u16At_front u32At_front u64At_front)

/-! ## The values of the round trip -/

namespace AMFValue

/-- A value whose strings and names fit their length fields.  Names are not empty and occur once in a map. -/
inductive WellFormed : AMFValue → Prop
  | number (bits : UInt64) : WellFormed (.number bits)
  | boolean (b : Bool) : WellFormed (.boolean b)
  | string {s : Bytes} (h : s.length < 65536) : WellFormed (.string s)
  | null : WellFormed .null
  | object {obj : List (Bytes × AMFValue)} (hnames : ∀ e ∈ obj, e.1 ≠ [] ∧ e.1.length < 65536)
      (hvalues : ∀ e ∈ obj, WellFormed e.2) (hnodup : (obj.map Prod.fst).Nodup) : WellFormed (.object obj)
  | ecmaArray {obj : List (Bytes × AMFValue)} (hnames : ∀ e ∈ obj, e.1 ≠ [] ∧ e.1.length < 65536)
      (hvalues : ∀ e ∈ obj, WellFormed e.2) (hnodup : (obj.map Prod.fst).Nodup) : WellFormed (.ecmaArray obj [])

def props : AMFValue → List (Bytes × AMFValue)
  | .object obj => obj
  | .ecmaArray obj _ => obj
  | _ => []

def IsMap : AMFValue → Prop
  | .object _ => True
  | .ecmaArray _ _ => True
  | _ => False

/-- The same value; maps are compared by what they hold. -/
inductive Same : AMFValue → AMFValue → Prop
  | number (bits : UInt64) : Same (.number bits) (.number bits)
  | boolean (b : Bool) : Same (.boolean b) (.boolean b)
  | string (s : Bytes) : Same (.string s) (.string s)
  | null : Same .null .null
  | object {p q : List (Bytes × AMFValue)}
      (hkeys : ∀ name, name ∈ p.map Prod.fst ↔ name ∈ q.map Prod.fst)
      (hvalues : ∀ name v w, (name, v) ∈ p → (name, w) ∈ q → Same v w) : Same (.object p) (.object q)
  | ecmaArray {p q : List (Bytes × AMFValue)} {arr : List AMFValue}
      (hkeys : ∀ name, name ∈ p.map Prod.fst ↔ name ∈ q.map Prod.fst)
      (hvalues : ∀ name v w, (name, v) ∈ p → (name, w) ∈ q → Same v w) : Same (.ecmaArray p arr) (.ecmaArray q arr)

/-- The value with the entries of its map in another order. -/
inductive Reordered : AMFValue → AMFValue → Prop
  | refl (v : AMFValue) : Reordered v v
  | object {p q : List (Bytes × AMFValue)} (h : p.Perm q) : Reordered (.object p) (.object q)
  | ecmaArray {p q : List (Bytes × AMFValue)} {arr : List AMFValue} (h : p.Perm q) :
      Reordered (.ecmaArray p arr) (.ecmaArray q arr)

/-- A property as `writeValue` writes it. -/
def flat : AMFValue → AMFValue
  | .object _ => .null
  | .ecmaArray _ _ => .null
  | v => v

def written : AMFValue → AMFValue
  | .object obj => .object (obj.map fun e => (e.1, e.2.flat))
  | .ecmaArray obj arr => .ecmaArray (obj.map fun e => (e.1, e.2.flat)) arr
  | v => v

end AMFValue

open AMFValue AmfReader

/-! ## Reading what was written -/

theorem readBytes_append {n : Nat} {front : Bytes} (hwidth : front.length = n) (rest : Bytes) :
    readBytes n (front ++ rest) = .ok (front, rest) := by
  subst hwidth
  simp [readBytes]

theorem readUint16_append (x : UInt16) (rest : Bytes) : readUint16 (be16 x ++ rest) = .ok (x, rest) := by
  have hvalue := u16At_front x []
  rw [append_nil] at hvalue
  rw [readUint16, readBytes_append (Lib.length_be16 x)]
  exact congrArg (fun y => Except.ok (y, rest)) hvalue

theorem readUint32_append (x : UInt32) (rest : Bytes) : readUint32 (be32 x ++ rest) = .ok (x, rest) := by
  have hvalue := u32At_front x []
  rw [append_nil] at hvalue
  rw [readUint32, readBytes_append (Lib.length_be32 x)]
  exact congrArg (fun y => Except.ok (y, rest)) hvalue

theorem readFloat64_append (x : UInt64) (rest : Bytes) : readFloat64 (be64 x ++ rest) = .ok (x, rest) := by
  have hvalue := u64At_front x []
  rw [append_nil] at hvalue
  rw [readFloat64, readBytes_append (Lib.length_be64 x)]
  exact congrArg (fun y => Except.ok (y, rest)) hvalue

theorem readString_append {s : Bytes} (h : s.length < 65536) (rest : Bytes) :
    readString (be16 (UInt16.ofNat s.length) ++ (s ++ rest)) = .ok (s, rest) := by
  rw [readString, readUint16_append]
  exact readBytes_append (UInt16.toNat_ofNat_of_lt h).symm rest

variable {v w : AMFValue} {obj : List (Bytes × AMFValue)} {name : Bytes} {values : List AMFValue}

theorem readValue_writeValue (hv : v.WellFormed) (fuel : Nat) (rest : Bytes) :
    readValue (fuel + 1) (writeValue v ++ rest) = .ok (v.flat, rest) := by
  cases v with
  | number bits =>
    rw [writeValue, writeNumber, cons_append, readValue]
    simp only [AmfReader.readByte, bind, Except.bind, if_true, readFloat64_append]
    rfl
  | boolean b =>
    cases b with
    | true | false => rfl
  | string s =>
    cases hv with
    | string hs =>
      have hread := readString_append hs rest
      rw [writeValue, writeString, cons_append, append_assoc, readValue]
      simp only [AmfReader.readByte, bind, Except.bind, hread]
      rfl
  | null | object obj | ecmaArray obj arr => rfl

theorem setProp_of_notMem (v : AMFValue) (h : name ∉ obj.map Prod.fst) : setProp obj name v = obj ++ [(name, v)] := by
  have hnone : ¬ obj.any (fun e => e.1 == name) = true := by
    rw [any_eq_true]
    rintro ⟨e, hmem, heq⟩
    rw [beq_iff_eq] at heq
    exact h (heq ▸ mem_map_of_mem hmem)
  exact if_neg hnone

/-- The properties go behind those that are there. -/
theorem readProps_writeProps (props obj : List (Bytes × AMFValue))
    (hnames : ∀ e ∈ props, e.1 ≠ [] ∧ e.1.length < 65536) (hvalues : ∀ e ∈ props, e.2.WellFormed)
    (hnodup : (obj.map Prod.fst ++ props.map Prod.fst).Nodup) (fuel : Nat) (hfuel : props.length < fuel)
    (rest : Bytes) :
    readProps fuel obj (writeProps props ++ rest) = .ok (obj ++ props.map (fun e => (e.1, e.2.flat)), rest) := by
  induction props generalizing obj fuel with
  | nil =>
    cases fuel with
    | zero => exact absurd hfuel (Nat.not_lt_zero _)
    | succ fuel =>
      rw [map_nil, append_nil]
      rfl
  | cons e props ih =>
    rcases e with ⟨name, v⟩
    obtain ⟨fuel, rfl⟩ : ∃ m, fuel = m + 2 := by
      refine ⟨fuel - 2, ?_⟩
      rw [length_cons] at hfuel
      omega
    rw [forall_mem_cons] at hnames hvalues
    rcases hnames with ⟨⟨hne, hshort⟩, hnames⟩
    have hempty : ¬ name.length = 0 := fun hzero => hne (length_eq_zero_iff.1 hzero)
    have hfresh : name ∉ obj.map Prod.fst := by
      intro hmem
      have hdisjoint := (nodup_append.1 hnodup).2.2
      exact hdisjoint name hmem name mem_cons_self rfl
    have hnext : ((obj ++ [(name, v.flat)]).map Prod.fst ++ props.map Prod.fst).Nodup := by
      rw [map_append, append_assoc]
      exact hnodup
    have hbytes : writeProps ((name, v) :: props) ++ rest =
        be16 (UInt16.ofNat name.length) ++ (name ++ (writeValue v ++ (writeProps props ++ rest))) := by
      simp only [writeProps, flatMap_cons, append_assoc]
    have hrest := ih (obj ++ [(name, v.flat)]) hnames hvalues.2 hnext _ (Nat.lt_of_succ_lt_succ hfuel)
    rw [hbytes, readProps, readString_append hshort]
    simp only [bind, Except.bind, if_neg hempty, readValue_writeValue hvalues.1, setProp_of_notMem _ hfresh, hrest]
    rw [append_assoc, map_cons, singleton_append]

theorem readValue_writeAny {v : AMFValue} (hv : v.WellFormed) {fuel : Nat} (hfuel : (writeAny v).length ≤ fuel)
    (rest : Bytes) : readValue (fuel + 1) (writeAny v ++ rest) = .ok (v.written, rest) := by
  have hprops (obj : List (Bytes × AMFValue)) : obj.length < (writeProps obj).length := by
    have hle : obj.length ≤ (obj.flatMap fun e => be16 (UInt16.ofNat e.1.length) ++ e.1 ++ writeValue e.2).length := by
      apply Lib.length_le_flatMap
      intro e _ hnil
      have hlen := congrArg length hnil
      simp at hlen
    rw [writeProps, length_append, length_append, length_singleton]
    omega
  cases hv with
  | number bits => exact readValue_writeValue (.number bits) fuel rest
  | boolean b => exact readValue_writeValue (.boolean b) fuel rest
  | string hs => exact readValue_writeValue (.string hs) fuel rest
  | null => exact readValue_writeValue .null fuel rest
  | @object obj hnames hvalues hnodup =>
    have hlt := hprops obj
    rw [writeAny, writeObject, length_cons] at hfuel
    have hread := readProps_writeProps obj [] hnames hvalues hnodup fuel (by omega) rest
    rw [writeAny, writeObject, cons_append, readValue]
    simp only [AmfReader.readByte, bind, Except.bind, hread]
    rfl
  | @ecmaArray obj hnames hvalues hnodup =>
    have hlt := hprops obj
    rw [writeAny, writeEcmaArray, length_cons, length_append, Lib.length_be32] at hfuel
    have hread := readProps_writeProps obj [] hnames hvalues hnodup fuel (by omega) rest
    rw [writeAny, writeEcmaArray, cons_append, append_assoc, readValue]
    simp only [AmfReader.readByte, bind, Except.bind, readUint32_append, hread]
    rfl

theorem decodeAMF0_encodeAMF0 (h : ∀ v ∈ values, v.WellFormed) :
    decodeAMF0 (encodeAMF0 values) = (values.map written, none) := by
  have hlength : values.length ≤ (encodeAMF0 values).length := by
    apply Lib.length_le_flatMap
    intro v _ hnil
    cases v with
    | number bits | boolean b | string s | null | object obj | ecmaArray obj arr => cases hnil
  have hloop (fuel : Nat) (hfuel : values.length ≤ fuel) :
      decodeLoop fuel (encodeAMF0 values) = (values.map written, none) := by
    clear hlength
    induction values generalizing fuel with
    | nil =>
      cases fuel with
      | zero | succ fuel => rfl
    | cons v values ih =>
      rw [forall_mem_cons] at h
      cases fuel with
      | zero => exact absurd hfuel (Nat.not_succ_le_zero _)
      | succ fuel =>
        have hrest := ih h.2 fuel (Nat.le_of_succ_le_succ hfuel)
        have hread := @readValue_writeAny v h.1 (encodeAMF0 (v :: values)).length (by simp [encodeAMF0])
          (encodeAMF0 values)
        have hdata : writeAny v ++ encodeAMF0 values = encodeAMF0 (v :: values) := rfl
        rw [hdata] at hread
        cases hbytes : encodeAMF0 (v :: values) with
        | nil =>
          rw [hbytes] at hread
          cases hread
        | cons b bytes =>
          rw [hbytes] at hread
          rw [decodeLoop, hread]
          simp only [hrest, map_cons]
  exact hloop _ hlength

/-! ## Maps in any order -/

theorem AMFValue.WellFormed.reordered (hw : w.WellFormed) (h : Reordered v w) : v.WellFormed := by
  cases h with
  | refl => exact hw
  | object hperm =>
    cases hw with
    | object hnames hvalues hnodup =>
      refine .object (fun e he => hnames e (hperm.mem_iff.1 he)) (fun e he => hvalues e (hperm.mem_iff.1 he)) ?_
      exact (hperm.map Prod.fst).nodup_iff.2 hnodup
  | ecmaArray hperm =>
    cases hw with
    | ecmaArray hnames hvalues hnodup =>
      refine .ecmaArray (fun e he => hnames e (hperm.mem_iff.1 he)) (fun e he => hvalues e (hperm.mem_iff.1 he)) ?_
      exact (hperm.map Prod.fst).nodup_iff.2 hnodup

theorem same_of_not_isMap (h : ¬ v.IsMap) : Same v v := by
  cases v with
  | number bits => exact .number bits
  | boolean b => exact .boolean b
  | string s => exact .string s
  | null => exact .null
  | object obj | ecmaArray obj arr => exact absurd trivial h

theorem flat_of_not_isMap (h : ¬ v.IsMap) : v.flat = v := by
  cases v with
  | number bits | boolean b | string s | null => rfl
  | object obj | ecmaArray obj arr => exact absurd trivial h

/-- The two facts about the entries that `Same` asks for. -/
theorem same_entries {p q : List (Bytes × AMFValue)} (hperm : p.Perm q) (hnodup : (q.map Prod.fst).Nodup)
    (hflat : ∀ e ∈ q, ¬ e.2.IsMap) :
    (∀ name, name ∈ (p.map fun e => (e.1, e.2.flat)).map Prod.fst ↔ name ∈ q.map Prod.fst) ∧
      ∀ name v w, (name, v) ∈ (p.map fun e => (e.1, e.2.flat)) → (name, w) ∈ q → Same v w := by
  constructor
  · intro name
    rw [map_map]
    exact (hperm.map Prod.fst).mem_iff
  · intro name v w hv hw
    rcases mem_map.1 hv with ⟨⟨name', v'⟩, hmem, heq⟩
    cases heq
    have hq := hperm.mem_iff.1 hmem
    have hnot := hflat _ hq
    -- a map has one value for a name
    obtain rfl : v' = w := congrArg Prod.snd (inj_on_of_nodup_map hnodup hq hw rfl)
    rw [flat_of_not_isMap hnot]
    exact same_of_not_isMap hnot

theorem same_written (hw : w.WellFormed) (h : Reordered v w) (hflat : ∀ e ∈ w.props, ¬ e.2.IsMap) :
    Same v.written w := by
  cases h with
  | refl =>
    cases hw with
    | number bits => exact .number bits
    | boolean b => exact .boolean b
    | @string s hs => exact .string s
    | null => exact .null
    | object hnames hvalues hnodup =>
      have hentries := same_entries (.refl _) hnodup hflat
      exact .object hentries.1 hentries.2
    | ecmaArray hnames hvalues hnodup =>
      have hentries := same_entries (.refl _) hnodup hflat
      exact .ecmaArray hentries.1 hentries.2
  | object hperm =>
    cases hw with
    | object hnames hvalues hnodup =>
      have hentries := same_entries hperm hnodup hflat
      exact .object hentries.1 hentries.2
  | ecmaArray hperm =>
    cases hw with
    | ecmaArray hnames hvalues hnodup =>
      have hentries := same_entries hperm hnodup hflat
      exact .ecmaArray hentries.1 hentries.2

/-- A map inside a map is lost. -/
theorem not_isMap_of_same_written (h : Same v.written v) : ∀ e ∈ v.props, ¬ e.2.IsMap := by
  -- the entry of the map `p` under the same name is null
  have hnull {p : List (Bytes × AMFValue)} (hvalues : ∀ name v w,
      (name, v) ∈ (p.map fun e => (e.1, e.2.flat)) → (name, w) ∈ p → Same v w) : ∀ e ∈ p, ¬ e.2.IsMap := by
    rintro ⟨name, w⟩ hmem hmap
    have hsame := hvalues name w.flat w (mem_map.2 ⟨(name, w), hmem, rfl⟩) hmem
    cases w with
    | number bits | boolean b | string s | null => exact hmap
    | object obj | ecmaArray obj arr => cases hsame
  cases v with
  | number bits | boolean b | string s | null => exact fun e he => nomatch he
  | object obj =>
    cases h with
    | object hkeys hvalues => exact hnull hvalues
  | ecmaArray obj arr =>
    cases h with
    | ecmaArray hkeys hvalues => exact hnull hvalues

theorem forall₂_same_written {visited : List AMFValue} (h : Forall₂ Reordered visited values)
    (hvalues : ∀ w ∈ values, w.WellFormed ∧ ∀ e ∈ w.props, ¬ e.2.IsMap) :
    (∀ v ∈ visited, v.WellFormed) ∧ Forall₂ Same (visited.map written) values := by
  induction h with
  | nil => exact ⟨fun v hv => (nomatch hv), .nil⟩
  | @cons v w visited values hreordered hrest ih =>
    rw [forall_mem_cons] at hvalues
    rcases hvalues with ⟨⟨hw, hflat⟩, hvalues⟩
    rcases ih hvalues with ⟨hvisited, hsame⟩
    refine ⟨?_, .cons (same_written hw hreordered hflat) hsame⟩
    rw [forall_mem_cons]
    exact ⟨hw.reordered hreordered, hvisited⟩

/-- A list of values comes back, in whatever order its maps are visited, exactly when no map of it holds a map. -/
theorem decodeAMF0_same_iff (values : List { v : AMFValue // v.WellFormed }) :
    (∀ visited, List.Forall₂ Reordered visited (values.map Subtype.val) →
        ∃ decoded, decodeAMF0 (encodeAMF0 visited) = (decoded, none) ∧
          List.Forall₂ Same decoded (values.map Subtype.val)) ↔
      ∀ v ∈ values, ∀ e ∈ v.1.props, ¬ e.2.IsMap := by
  constructor
  · intro h v hv
    have hrefl : Forall₂ Reordered (values.map Subtype.val) (values.map Subtype.val) :=
      forall₂_same.2 fun w _ => .refl w
    rcases h _ hrefl with ⟨decoded, hdecoded, hsame⟩
    have hwell : ∀ w ∈ values.map Subtype.val, w.WellFormed := by
      rw [forall_mem_map]
      exact fun w _ => w.2
    rw [decodeAMF0_encodeAMF0 hwell] at hdecoded
    cases hdecoded
    rw [forall₂_map_left_iff, forall₂_same] at hsame
    exact not_isMap_of_same_written (hsame v.1 (mem_map_of_mem hv))
  · intro hflat visited hvisited
    have hvalues : ∀ w ∈ values.map Subtype.val, w.WellFormed ∧ ∀ e ∈ w.props, ¬ e.2.IsMap := by
      rw [forall_mem_map]
      exact fun w hw => ⟨w.2, hflat w hw⟩
    rcases forall₂_same_written hvisited hvalues with ⟨hwell, hsame⟩
    exact ⟨visited.map written, decodeAMF0_encodeAMF0 hwell, hsame⟩

/-- An object with the empty object under the name `a`: null is under that name when it comes back. -/
theorem decodeAMF0_nested_object :
    decodeAMF0 (encodeAMF0 [.object [([0x61], .object [])]]) = ([.object [([0x61], .null)]], none) := by
  rfl

end LingVoice.Rtmp
