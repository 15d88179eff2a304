import Mathlib
import HopfieldDescent.Config.Json
import HopfieldDescent.Proofs.Outcome

/-!
# Reading records in any order

`takeMembers` goes through the members of an object from the front and changes the record as it
goes.  What comes out does not depend on the order: `takeMembers_eq_ok` says when the reading
succeeds, and with which record, by looking at each member on its own.  A known name comes at most
once, the field with that name holds what is read from its value, every other field is left as it
was, and a value under an unknown name only has to be without a fault.

The record is seen through its fields.  `Field` is a member together with the place where its value
is kept, and `Faithful` lists what such a table of fields has to satisfy.
-/

namespace HopfieldDescent.Json

variable {R α : Type}

/-! ## Values without a fault -/

/-- A value that was read to its end without a fault, names and literals included. -/
inductive Intact : Json R → Prop
  | null : Intact .null
  | bool (b : Bool) : Intact (.bool b)
  | number (n : Numeral R) : Intact (.number n)
  | string (s : String) : Intact (.string s)
  | array {items : List (Json R)} (items_intact : ∀ item ∈ items, Intact item) :
      Intact (.array items none)
  | object {members : List (MemberName × Json R)}
      (names_readable : ∀ m ∈ members, m.1.fault? = none)
      (values_intact : ∀ m ∈ members, Intact m.2) : Intact (.object members none)

/-- A list is passed over when each of its items is. -/
lemma firstSkipped_eq_none {items : List (Json R)}
    (h : ∀ item ∈ items, item.faultWhenSkipped = none) : firstSkipped items = none := by
  induction items with
  | nil => rfl
  | cons item items ih =>
    obtain ⟨hitem, hitems⟩ := List.forall_mem_cons.1 h
    rw [firstSkipped, hitem, ih hitems, Option.or_none]

/-- Members are passed over when each of their values is. -/
lemma firstSkippedMember_eq_none {members : List (MemberName × Json R)}
    (h : ∀ m ∈ members, m.2.faultWhenSkipped = none) : firstSkippedMember members = none := by
  induction members with
  | nil => rfl
  | cons m members ih =>
    obtain ⟨hm, hmembers⟩ := List.forall_mem_cons.1 h
    rw [firstSkippedMember, hm, ih hmembers, Option.or_none]

/-- An intact value can be passed over. -/
lemma Intact.faultWhenSkipped_eq_none {value : Json R} (h : value.Intact) :
    value.faultWhenSkipped = none := by
  induction h with
  | null | bool | number | string => rw [faultWhenSkipped]
  | array _ ih => rw [faultWhenSkipped, firstSkipped_eq_none ih, Option.or_none]
  | object _ _ ih => rw [faultWhenSkipped, firstSkippedMember_eq_none ih]; rfl

/-! ## What holds of every record -/

section Invariant

variable {P : α → Prop} {known : List (Member R α)} {start record : α}

/-- What every change of a record keeps holds of a record read from an object. -/
lemma invariant_of_takeMembers {seen : List String} {members : List (MemberName × Json R)}
    (hkeep : ∀ member ∈ known, ∀ value change, member.read value = .ok change →
      ∀ s, P s → P (change s))
    (hstart : P start) (h : takeMembers known seen start members = .ok record) : P record := by
  induction members generalizing seen start with
  | nil =>
    obtain rfl := Except.ok.inj h
    exact hstart
  | cons m members ih =>
    rcases m with ⟨name | fault, value⟩
    · unfold takeMembers at h
      split at h
      · split at h
        · cases h
        · exact ih hstart h
      · rename_i member hmember
        split_ifs at h
        obtain ⟨change, hchange, h⟩ := Outcome.bind_eq_ok.1 h
        exact ih (hkeep member (List.mem_of_find?_eq_some hmember) value change hchange _ hstart) h
    · cases h

/-- What every change of a record keeps holds of a record read from a list. -/
lemma invariant_of_takePositions {items : List (Json R)}
    (hkeep : ∀ member ∈ known, ∀ value change, member.read value = .ok change →
      ∀ s, P s → P (change s))
    (hstart : P start) (h : takePositions known start items = .ok record) : P record := by
  induction items generalizing known start with
  | nil =>
    obtain rfl : start = record := by
      cases known <;> exact Except.ok.inj h
    exact hstart
  | cons value items ih =>
    cases known with
    | nil => cases h
    | cons member known =>
      obtain ⟨hmember, hknown⟩ := List.forall_mem_cons.1 hkeep
      obtain ⟨change, hchange, h⟩ := Outcome.bind_eq_ok.1 h
      exact ih hknown (hmember value change hchange _ hstart) h

/-- A record is finished as it was taken, if nothing is wrong with the end. -/
lemma finishRecord_eq_ok {ending : Option SyntaxFault} {taken : α} :
    finishRecord ending taken = .ok record ↔ ending = none ∧ taken = record := by
  cases ending <;> simp [finishRecord]

/-- What holds of the record to start from and is kept by every change holds of every record. -/
theorem invariant_of_readRecord {value : Json R}
    (hkeep : ∀ member ∈ known, ∀ value change, member.read value = .ok change →
      ∀ s, P s → P (change s))
    (hstart : P start) (h : readRecord known start value = .ok record) : P record := by
  unfold readRecord at h
  split at h
  · obtain ⟨taken, htaken, hfinish⟩ := Outcome.bind_eq_ok.1 h
    obtain ⟨-, rfl⟩ := finishRecord_eq_ok.1 hfinish
    exact invariant_of_takeMembers hkeep hstart htaken
  · obtain ⟨taken, htaken, hfinish⟩ := Outcome.bind_eq_ok.1 h
    obtain ⟨-, rfl⟩ := finishRecord_eq_ok.1 hfinish
    exact invariant_of_takePositions hkeep hstart htaken
  · cases h

end Invariant

/-! ## Fields -/

/-- A field of a record, with what is needed to read and to write it. -/
structure Field (R α : Type) : Type 1 where
  /-- The name in an object. -/
  name : String
  /-- What is kept in the field. -/
  Value : Type
  /-- The value in a record. -/
  get : α → Value
  /-- A record with another value. -/
  store : Value → α → α
  /-- Reads a value. -/
  read : Json R → Except ReadFault Value
  /-- The ways in which a value may be written. -/
  Writes : Value → Json R → Prop

/-- A field as a member of an object. -/
def Field.member (f : Field R α) : Member R α := .of f.name f.read f.store

/-- The names of fields. -/
def names (fields : List (Field R α)) : List String := fields.map Field.name

/-- A table of fields describes a record: there is a place for each value, and nothing else. -/
structure Faithful (fields : List (Field R α)) : Prop where
  /-- Different fields have different names. -/
  nodup : (names fields).Nodup
  /-- What is stored is kept. -/
  get_store : ∀ f ∈ fields, ∀ v s, f.get (f.store v s) = v
  /-- Other fields are not touched. -/
  get_store_of_ne : ∀ f ∈ fields, ∀ g ∈ fields, g.name ≠ f.name →
    ∀ v s, g.get (f.store v s) = g.get s
  /-- Records with the same values are equal. -/
  ext : ∀ s t, (∀ f ∈ fields, f.get s = f.get t) → s = t

section Fields

variable {fields : List (Field R α)} {f g : Field R α}

/-- A field is known by its name. -/
lemma Faithful.eq_of_name (hfields : Faithful fields) (hf : f ∈ fields) (hg : g ∈ fields)
    (h : f.name = g.name) : f = g :=
  List.inj_on_of_nodup_map hfields.nodup hf hg h

/-- The member with the name of a field is that field. -/
lemma Faithful.find?_eq_some (hfields : Faithful fields) (hf : f ∈ fields) :
    (fields.map Field.member).find? (fun member => member.name == f.name) = some f.member := by
  cases hfind : (fields.map Field.member).find? (fun member => member.name == f.name) with
  | none =>
    have := List.find?_eq_none.1 hfind f.member (List.mem_map_of_mem hf)
    exact absurd (beq_self_eq_true f.name) this
  | some member =>
    obtain ⟨g, hg, rfl⟩ := List.mem_map.1 (List.mem_of_find?_eq_some hfind)
    have hname : g.name = f.name := by
      simpa [Field.member, Member.of] using List.find?_some hfind
    rw [hfields.eq_of_name hg hf hname]

/-- No member has a name that is not one of a field. -/
lemma find?_eq_none {name : String} (h : name ∉ names fields) :
    (fields.map Field.member).find? (fun member => member.name == name) = none := by
  refine List.find?_eq_none.2 fun member hmember hname => h ?_
  obtain ⟨f, hf, rfl⟩ := List.mem_map.1 hmember
  exact List.mem_map.2 ⟨f, hf, eq_of_beq hname⟩

/-! ## Objects in any order -/

/-- The known names in an object, in their order. -/
def knownNames (fields : List (Field R α)) (members : List (MemberName × Json R)) : List String :=
  members.filterMap fun m =>
    match m.1 with
    | .readable name => if name ∈ names fields then some name else none
    | .unreadable _ => none

/-- The members of an object, read on top of a record with `seen` already known, make up another
record.  Nothing here depends on their order. -/
structure Taken (fields : List (Field R α)) (seen : List String) (start : α)
    (members : List (MemberName × Json R)) (record : α) : Prop where
  /-- Every name is a string. -/
  readable : ∀ m ∈ members, ∃ name, m.1 = .readable name
  /-- No known name comes twice. -/
  distinct : (knownNames fields members).Nodup
  /-- No known name has been seen before. -/
  fresh : ∀ name ∈ knownNames fields members, name ∉ seen
  /-- A field whose name comes up holds what is read from its value. -/
  present : ∀ f ∈ fields, ∀ value, (.readable f.name, value) ∈ members →
    f.read value = .ok (f.get record)
  /-- The other fields are left as they were. -/
  absent : ∀ f ∈ fields, f.name ∉ knownNames fields members → f.get record = f.get start
  /-- A value under an unknown name can be passed over. -/
  skipped : ∀ name value, (.readable name, value) ∈ members → name ∉ names fields →
    value.faultWhenSkipped = none

variable {seen : List String} {start record : α} {members members' : List (MemberName × Json R)}
  {name : String} {value : Json R}

lemma knownNames_cons_of_mem (h : name ∈ names fields) :
    knownNames fields ((.readable name, value) :: members) = name :: knownNames fields members := by
  simp [knownNames, h]

lemma knownNames_cons_of_notMem (h : name ∉ names fields) :
    knownNames fields ((.readable name, value) :: members) = knownNames fields members := by
  simp [knownNames, h]

/-- What is taken from an object does not depend on the order of its members. -/
theorem Taken.perm (h : Taken fields seen start members record) (hperm : members.Perm members') :
    Taken fields seen start members' record := by
  have hknown : (knownNames fields members).Perm (knownNames fields members') :=
    hperm.filterMap _
  constructor
  · intro m hm
    exact h.readable m (hperm.mem_iff.2 hm)
  · exact hknown.nodup_iff.1 h.distinct
  · intro name hname
    exact h.fresh name (hknown.mem_iff.2 hname)
  · intro f hf value hvalue
    exact h.present f hf value (hperm.mem_iff.2 hvalue)
  · intro f hf hname
    exact h.absent f hf fun hmem => hname (hknown.mem_iff.1 hmem)
  · intro name value hvalue
    exact h.skipped name value (hperm.mem_iff.2 hvalue)

/-- A known member changes its own field, and the rest is read on top of that. -/
lemma Taken.cons_of_mem (hfields : Faithful fields) (hf : f ∈ fields) :
    Taken fields seen start ((.readable f.name, value) :: members) record ↔
      f.name ∉ seen ∧ ∃ v, f.read value = .ok v ∧
        Taken fields (f.name :: seen) (f.store v start) members record := by
  have hknown : knownNames fields ((.readable f.name, value) :: members) =
      f.name :: knownNames fields members := knownNames_cons_of_mem (List.mem_map_of_mem hf)
  constructor
  · intro h
    obtain ⟨hfirst, hrest⟩ := List.nodup_cons.1 (hknown ▸ h.distinct)
    refine ⟨h.fresh f.name (hknown ▸ List.mem_cons_self), f.get record,
      h.present f hf value List.mem_cons_self, ?_⟩
    constructor
    · intro m hm
      exact h.readable m (List.mem_cons_of_mem _ hm)
    · exact hrest
    · intro name hname hseen
      rcases List.mem_cons.1 hseen with rfl | hseen
      · exact hfirst hname
      · exact h.fresh name (hknown ▸ List.mem_cons_of_mem _ hname) hseen
    · intro g hg value' hvalue'
      exact h.present g hg value' (List.mem_cons_of_mem _ hvalue')
    · intro g hg hname
      by_cases hsame : g.name = f.name
      · obtain rfl := hfields.eq_of_name hg hf hsame
        rw [hfields.get_store g hg]
      · rw [hfields.get_store_of_ne f hf g hg hsame]
        refine h.absent g hg ?_
        rw [hknown, List.mem_cons, not_or]
        exact ⟨hsame, hname⟩
    · intro name value' hvalue'
      exact h.skipped name value' (List.mem_cons_of_mem _ hvalue')
  · rintro ⟨hseen, v, hread, h⟩
    have hfresh : f.name ∉ knownNames fields members := fun hmem =>
      h.fresh f.name hmem List.mem_cons_self
    have hstored : f.get record = v := (h.absent f hf hfresh).trans (hfields.get_store f hf v start)
    constructor
    · exact List.forall_mem_cons.2 ⟨⟨f.name, rfl⟩, h.readable⟩
    · rw [hknown]
      exact List.nodup_cons.2 ⟨hfresh, h.distinct⟩
    · rw [hknown]
      refine List.forall_mem_cons.2 ⟨hseen, fun name hname hmem => ?_⟩
      exact h.fresh name hname (List.mem_cons_of_mem _ hmem)
    · intro g hg value' hvalue'
      rcases List.mem_cons.1 hvalue' with heq | hmem
      · simp only [Prod.mk.injEq, MemberName.readable.injEq] at heq
        obtain ⟨hname, rfl⟩ := heq
        obtain rfl := hfields.eq_of_name hg hf hname
        rw [hread, hstored]
      · exact h.present g hg value' hmem
    · intro g hg hname
      rw [hknown, List.mem_cons, not_or] at hname
      rw [h.absent g hg hname.2, hfields.get_store_of_ne f hf g hg hname.1]
    · intro name value' hvalue' hunknown
      rcases List.mem_cons.1 hvalue' with heq | hmem
      · simp only [Prod.mk.injEq, MemberName.readable.injEq] at heq
        exact absurd (List.mem_map.2 ⟨f, hf, heq.1.symm⟩) hunknown
      · exact h.skipped name value' hmem hunknown

/-- A member with an unknown name changes nothing. -/
lemma Taken.cons_of_notMem (hname : name ∉ names fields) :
    Taken fields seen start ((.readable name, value) :: members) record ↔
      value.faultWhenSkipped = none ∧ Taken fields seen start members record := by
  have hknown : knownNames fields ((.readable name, value) :: members) =
      knownNames fields members := knownNames_cons_of_notMem hname
  constructor
  · intro h
    refine ⟨h.skipped name value List.mem_cons_self hname, ?_, hknown ▸ h.distinct,
      hknown ▸ h.fresh, ?_, hknown ▸ h.absent, ?_⟩
    · intro m hm
      exact h.readable m (List.mem_cons_of_mem _ hm)
    · intro g hg value' hvalue'
      exact h.present g hg value' (List.mem_cons_of_mem _ hvalue')
    · intro name' value' hvalue'
      exact h.skipped name' value' (List.mem_cons_of_mem _ hvalue')
  · rintro ⟨hskipped, h⟩
    refine ⟨List.forall_mem_cons.2 ⟨⟨name, rfl⟩, h.readable⟩, hknown ▸ h.distinct,
      hknown ▸ h.fresh, ?_, hknown ▸ h.absent, ?_⟩
    · intro g hg value' hvalue'
      rcases List.mem_cons.1 hvalue' with heq | hmem
      · simp only [Prod.mk.injEq, MemberName.readable.injEq] at heq
        exact absurd (List.mem_map.2 ⟨g, hg, heq.1⟩) hname
      · exact h.present g hg value' hmem
    · intro name' value' hvalue' hunknown
      rcases List.mem_cons.1 hvalue' with heq | hmem
      · simp only [Prod.mk.injEq] at heq
        exact heq.2 ▸ hskipped
      · exact h.skipped name' value' hmem hunknown

/-- Reading the members of an object in order is the same as looking at each on its own. -/
theorem takeMembers_eq_ok (hfields : Faithful fields) :
    takeMembers (fields.map Field.member) seen start members = .ok record ↔
      Taken fields seen start members record := by
  induction members generalizing seen start with
  | nil =>
    rw [takeMembers, Except.ok.injEq]
    constructor
    · rintro rfl
      exact ⟨nofun, List.nodup_nil, nofun, nofun, fun _ _ _ => rfl, nofun⟩
    · intro h
      exact hfields.ext _ _ fun f hf => (h.absent f hf List.not_mem_nil).symm
  | cons m members ih =>
    rcases m with ⟨name | fault, value⟩
    · by_cases hname : name ∈ names fields
      · obtain ⟨f, hf, rfl⟩ := List.mem_map.1 hname
        rw [Taken.cons_of_mem hfields hf, takeMembers, hfields.find?_eq_some hf]
        by_cases hseen : f.name ∈ seen
        · simp [hseen]
        · simp only [List.contains_iff_mem, hseen, if_false, Field.member, Member.of,
            Outcome.bind_eq_ok, Outcome.map_eq_ok, not_false_eq_true, true_and]
          constructor
          · rintro ⟨_, ⟨v, hread, rfl⟩, h⟩
            exact ⟨v, hread, ih.1 h⟩
          · rintro ⟨v, hread, h⟩
            exact ⟨_, ⟨v, hread, rfl⟩, ih.2 h⟩
      · rw [Taken.cons_of_notMem hname, takeMembers, find?_eq_none hname]
        cases hskipped : value.faultWhenSkipped with
        | none => simpa [hskipped] using ih
        | some fault => simp
    · constructor
      · rintro ⟨⟩
      · intro h
        obtain ⟨name, hname⟩ := h.readable _ List.mem_cons_self
        cases hname

/-- An object is read when it has been read to its end and its members make up a record. -/
theorem readRecord_object_eq_ok (hfields : Faithful fields) {ending : Option SyntaxFault} :
    readRecord (fields.map Field.member) start (.object members ending) = .ok record ↔
      ending = none ∧ Taken fields [] start members record := by
  simp only [readRecord, Outcome.bind_eq_ok, finishRecord_eq_ok, takeMembers_eq_ok hfields]
  constructor
  · rintro ⟨taken, htaken, hending, rfl⟩
    exact ⟨hending, htaken⟩
  · rintro ⟨hending, htaken⟩
    exact ⟨record, htaken, hending, rfl⟩

/-- The order of the members of an object does not matter. -/
theorem readRecord_perm (hfields : Faithful fields) (hperm : members.Perm members')
    (ending : Option SyntaxFault) :
    readRecord (fields.map Field.member) start (.object members ending) = .ok record ↔
      readRecord (fields.map Field.member) start (.object members' ending) = .ok record := by
  rw [readRecord_object_eq_ok hfields, readRecord_object_eq_ok hfields]
  exact and_congr_right fun _ => ⟨fun h => h.perm hperm, fun h => h.perm hperm.symm⟩

/-- A known name that comes up in an object is one of its known names. -/
lemma mem_knownNames (hname : name ∈ names fields) (h : (.readable name, value) ∈ members) :
    name ∈ knownNames fields members :=
  List.mem_filterMap.2 ⟨_, h, if_pos hname⟩

/-- What is in a field that does not come up stays there. -/
lemma Taken.store (hfields : Faithful fields) (hf : f ∈ fields) (hseen : f.name ∈ seen)
    (h : Taken fields seen start members record) (v : f.Value) :
    Taken fields seen (f.store v start) members (f.store v record) := by
  have hfresh : f.name ∉ knownNames fields members := fun hmem => h.fresh f.name hmem hseen
  refine ⟨h.readable, h.distinct, h.fresh, ?_, ?_, h.skipped⟩
  · intro g hg value hvalue
    have hne : g.name ≠ f.name := by
      intro hsame
      exact hfresh (hsame ▸ mem_knownNames (List.mem_map_of_mem hg) hvalue)
    rw [hfields.get_store_of_ne f hf g hg hne]
    exact h.present g hg value hvalue
  · intro g hg hname
    by_cases hsame : g.name = f.name
    · obtain rfl := hfields.eq_of_name hg hf hsame
      rw [hfields.get_store g hg, hfields.get_store g hg]
    · rw [hfields.get_store_of_ne f hf g hg hsame, hfields.get_store_of_ne f hf g hg hsame]
      exact h.absent g hg hname

/-- The second of two values stored in a field is the one that stays. -/
lemma Faithful.store_store (hfields : Faithful fields) (hf : f ∈ fields) (v v' : f.Value) (s : α) :
    f.store v (f.store v' s) = f.store v s := by
  refine hfields.ext _ _ fun g hg => ?_
  by_cases hsame : g.name = f.name
  · obtain rfl := hfields.eq_of_name hg hf hsame
    rw [hfields.get_store g hg, hfields.get_store g hg]
  · rw [hfields.get_store_of_ne f hf g hg hsame, hfields.get_store_of_ne f hf g hg hsame,
      hfields.get_store_of_ne f hf g hg hsame]

/-- Storing what is there anyway changes nothing. -/
lemma Faithful.store_get (hfields : Faithful fields) (hf : f ∈ fields) (s : α) :
    f.store (f.get s) s = s := by
  refine hfields.ext _ _ fun g hg => ?_
  by_cases hsame : g.name = f.name
  · obtain rfl := hfields.eq_of_name hg hf hsame
    rw [hfields.get_store g hg]
  · rw [hfields.get_store_of_ne f hf g hg hsame]

/-- A known member can be left for the end: the rest of the object is read on its own, without that
name in it, and then the value is stored. -/
theorem readRecord_insert (hfields : Faithful fields) (hf : f ∈ fields)
    {before after : List (MemberName × Json R)} {ending : Option SyntaxFault} :
    readRecord (fields.map Field.member) start
        (.object (before ++ (.readable f.name, value) :: after) ending) = .ok record ↔
      f.name ∉ knownNames fields (before ++ after) ∧ ∃ v rest, f.read value = .ok v ∧
        readRecord (fields.map Field.member) start (.object (before ++ after) ending) = .ok rest ∧
        record = f.store v rest := by
  rw [readRecord_perm hfields List.perm_middle, readRecord_object_eq_ok hfields,
    Taken.cons_of_mem hfields hf]
  simp only [readRecord_object_eq_ok hfields]
  constructor
  · rintro ⟨hending, -, v, hread, h⟩
    have hfresh : f.name ∉ knownNames fields (before ++ after) := fun hmem =>
      h.fresh f.name hmem List.mem_cons_self
    have hstored : f.get record = v :=
      (h.absent f hf hfresh).trans (hfields.get_store f hf v start)
    -- put back what was in the field at the start
    have hrest := h.store hfields hf List.mem_cons_self (f.get start)
    rw [hfields.store_store hf, hfields.store_get hf] at hrest
    refine ⟨hfresh, v, f.store (f.get start) record, hread, ⟨hending, ?_⟩, ?_⟩
    · exact ⟨hrest.readable, hrest.distinct, fun _ _ => List.not_mem_nil, hrest.present,
        hrest.absent, hrest.skipped⟩
    · rw [hfields.store_store hf, ← hstored, hfields.store_get hf]
  · rintro ⟨hfresh, v, rest, hread, ⟨hending, h⟩, rfl⟩
    have hrest : Taken fields [f.name] start (before ++ after) rest := by
      refine ⟨h.readable, h.distinct, fun name hname hseen => ?_, h.present, h.absent, h.skipped⟩
      obtain rfl := List.mem_singleton.1 hseen
      exact hfresh hname
    exact ⟨hending, List.not_mem_nil, v, hread, hrest.store hfields hf List.mem_cons_self v⟩

/-- A member counts only by what is read from its value. -/
theorem readRecord_congr (hfields : Faithful fields) (hf : f ∈ fields) {value' : Json R}
    (h : ∀ v, f.read value = .ok v ↔ f.read value' = .ok v)
    {before after : List (MemberName × Json R)} {ending : Option SyntaxFault} :
    readRecord (fields.map Field.member) start
        (.object (before ++ (.readable f.name, value) :: after) ending) = .ok record ↔
      readRecord (fields.map Field.member) start
        (.object (before ++ (.readable f.name, value') :: after) ending) = .ok record := by
  simp only [readRecord_insert hfields hf, h]

/-- An object in which a known name comes twice is not read. -/
theorem readRecord_repeated (hfields : Faithful fields) (hname : name ∈ names fields)
    (before between after : List (MemberName × Json R)) (value value' : Json R)
    (ending : Option SyntaxFault) :
    readRecord (fields.map Field.member) start (.object (before ++ (.readable name, value) ::
      (between ++ (.readable name, value') :: after)) ending) ≠ .ok record := by
  intro h
  obtain ⟨f, hf, rfl⟩ := List.mem_map.1 hname
  have hsecond : (.readable f.name, value') ∈
      before ++ (between ++ (MemberName.readable f.name, value') :: after) :=
    List.mem_append_right _ (List.mem_append_right _ List.mem_cons_self)
  exact ((readRecord_insert hfields hf).1 h).1 (mem_knownNames hname hsecond)

/-! ## Objects as they are written -/

/-- The members of an object that is written for a record: every field that is there has a value
that is written for it, fields may be left out where the record has the standard value, and there
may be more members with other names. -/
structure Written (fields : List (Field R α)) (standard record : α)
    (members : List (String × Json R)) : Prop where
  /-- No field is written twice. -/
  distinct : ((members.map Prod.fst).filter (· ∈ names fields)).Nodup
  /-- Each field that is there is written. -/
  written : ∀ f ∈ fields, ∀ value, (f.name, value) ∈ members → f.Writes (f.get record) value
  /-- A field that is not there has its standard value. -/
  omitted : ∀ f ∈ fields, f.name ∉ members.map Prod.fst → f.get record = f.get standard
  /-- Other members have any values. -/
  others : ∀ m ∈ members, m.1 ∉ names fields → m.2.Intact

/-- An object whose members are the fields in their order, each one written, is written for the
record. -/
lemma Written.of_names (hfields : Faithful fields) {members : List (String × Json R)}
    (hnames : members.map Prod.fst = names fields)
    (hwritten : ∀ f ∈ fields, ∀ value, (f.name, value) ∈ members → f.Writes (f.get record) value) :
    Written fields start record members where
  distinct := by
    rw [hnames]
    exact hfields.nodup.filter _
  written := hwritten
  omitted f hf hname := absurd (hnames ▸ List.mem_map_of_mem hf) hname
  others m hm hname := absurd (hnames ▸ List.mem_map_of_mem hm) hname

/-- A written object is read as the record that it was written for. -/
theorem readRecord_of_written (hfields : Faithful fields) {members : List (String × Json R)}
    (hread : ∀ f ∈ fields, ∀ value, f.Writes (f.get record) value →
      f.read value = .ok (f.get record))
    (h : Written fields start record members) :
    readRecord (fields.map Field.member) start (.ofMembers members) = .ok record := by
  have hknown : knownNames fields (members.map fun m => (.readable m.1, m.2)) =
      (members.map Prod.fst).filter (· ∈ names fields) := by
    clear h
    induction members with
    | nil => rfl
    | cons m members ih =>
      rw [List.map_cons, List.map_cons]
      by_cases hname : m.1 ∈ names fields
      · rw [knownNames_cons_of_mem hname, ih, List.filter_cons_of_pos (by simpa using hname)]
      · rw [knownNames_cons_of_notMem hname, ih, List.filter_cons_of_neg (by simpa using hname)]
  have hmem {name : String} {value : Json R}
      (hvalue : (.readable name, value) ∈ members.map fun m => (MemberName.readable m.1, m.2)) :
      (name, value) ∈ members := by
    obtain ⟨⟨name', value'⟩, hm, heq⟩ := List.mem_map.1 hvalue
    simp only [Prod.mk.injEq, MemberName.readable.injEq] at heq
    obtain ⟨rfl, rfl⟩ := heq
    exact hm
  refine (readRecord_object_eq_ok hfields).2 ⟨rfl, ?_⟩
  constructor
  · intro m hm
    obtain ⟨m', -, rfl⟩ := List.mem_map.1 hm
    exact ⟨m'.1, rfl⟩
  · exact hknown ▸ h.distinct
  · intro name _ hseen
    cases hseen
  · intro f hf value hvalue
    exact hread f hf value (h.written f hf value (hmem hvalue))
  · intro f hf hname
    refine h.omitted f hf fun hwritten => hname ?_
    rw [hknown, List.mem_filter]
    exact ⟨hwritten, decide_eq_true (List.mem_map_of_mem hf)⟩
  · intro name value hvalue hname
    exact (h.others _ (hmem hvalue) hname).faultWhenSkipped_eq_none

end Fields

end HopfieldDescent.Json
