import Mathlib.Data.Finset.Card
import Mathlib.Data.Finset.Dedup
import StyleCheck.Proofs.Css.Sheet
import StyleCheck.Proofs.Style.Registration
import StyleCheck.Style.Reading

/-!
# Requests to a registry

Sheets and sources are registered in any order, repeated or beyond reading, and forgotten again.
Main statement: whatever the requests, and however texts are read, the ids and the places of the
sheets agree, the rules are listed sheet by sheet, a sheet keeps its place, and a source that cannot
be read adds nothing.
-/

namespace StyleCheck.Style

open Dom (StyleSource)

/-! ### Ids -/

namespace Stylesheet

theorem id_addRule (sheet : Stylesheet) (rule : Rule) : (sheet.addRule rule).id = sheet.id := by
  unfold addRule
  split <;> rfl

theorem id_ofRules (id content : String) (rules : List Rule) :
    (ofRules id content rules).id = id := by
  suffices hfold : ∀ sheet : Stylesheet, (rules.foldl addRule sheet).id = sheet.id from
    hfold (.empty id content)
  induction rules with
  | nil => exact fun _ ↦ rfl
  | cons rule rest ih => exact fun sheet ↦ (ih _).trans (id_addRule sheet rule)

/-- A sheet that is read has the id that it was asked for under. -/
def KeepsId {ε : Type} (read : String → String → Except ε Stylesheet) : Prop :=
  ∀ id content sheet, read id content = .ok sheet → sheet.id = id

/-- However the rules are read from a text, the sheet that they make up keeps its id. -/
theorem keepsId_ofRules {ε : Type} (readRules : String → Except ε (List Rule)) :
    KeepsId fun id content ↦ (readRules content).map (ofRules id content) := by
  intro id content sheet h
  obtain ⟨rules, -, rfl⟩ := Css.map_eq_ok.mp h
  exact id_ofRules id content rules

theorem keepsId_read : KeepsId read := keepsId_ofRules readRules

end Stylesheet

namespace Registry

open Stylesheet (KeepsId)

variable {registry registry' registry'' : Registry} {ε : Type}
  {read : String → String → Except ε Stylesheet}

/-- No two sheets have the same id. -/
theorem Faithful.nodup_ids (h : registry.Faithful) : registry.ids.Nodup := by
  rw [List.nodup_iff_getElem?_ne_getElem?]
  intro i j hij hj heq
  have hid := List.getElem?_eq_getElem hj
  have hplace : ∀ k, registry.ids[k]? = some registry.ids[j] →
      registry.places.find? registry.ids[j] = some k := by
    intro k hk
    rw [h]
    simpa [ids] using hk
  have hsame := (hplace i (heq.trans hid)).symm.trans (hplace j hid)
  exact Nat.ne_of_lt hij (Option.some.inj hsame)

/-! ### Listed rules -/

/-- The number of rules of the sheets before a place. -/
def rulesBefore (registry : Registry) (place : Nat) : Nat :=
  ((registry.sheets.toList.take place).flatMap fun sheet ↦ sheet.rules.toList).length

/-- Sheet by sheet, rules stand behind those of the sheets before them. -/
private theorem getElem?_flatMap_rules (sheets : List Stylesheet) (start n : Nat) (id : String)
    (place : Nat) (rule : Rule) :
    ((sheets.zipIdx start).flatMap fun (sheet, i) ↦ sheet.rules.toList.map fun rule ↦
        (sheet.id, i, rule))[n]? = some (id, place, rule) ↔
      ∃ sheet i k, sheets[i]? = some sheet ∧ sheet.rules[k]? = some rule ∧ sheet.id = id ∧
        place = start + i ∧
        n = ((sheets.take i).flatMap fun sheet ↦ sheet.rules.toList).length + k := by
  induction sheets generalizing start n with
  | nil => simp
  | cons first rest ih =>
    have hbefore : ∀ i, (((first :: rest).take (i + 1)).flatMap fun sheet ↦
        sheet.rules.toList).length =
        first.rules.size + ((rest.take i).flatMap fun sheet ↦ sheet.rules.toList).length := by
      intro i
      rw [List.take_succ_cons, List.flatMap_cons, List.length_append, Array.length_toList]
    rw [List.zipIdx_cons, List.flatMap_cons, List.getElem?_append, List.length_map,
      Array.length_toList]
    by_cases hn : n < first.rules.size
    · rw [if_pos hn, List.getElem?_map, Array.getElem?_toList, Option.map_eq_some_iff]
      constructor
      · rintro ⟨found, hfound, heq⟩
        cases heq
        exact ⟨first, 0, n, rfl, hfound, rfl, rfl, (Nat.zero_add n).symm⟩
      · rintro ⟨sheet, i, k, hsheet, hrule, rfl, rfl, hk⟩
        cases i with
        | zero =>
          cases hsheet
          rw [List.take_zero, List.flatMap_nil, List.length_nil, Nat.zero_add] at hk
          exact ⟨rule, hk ▸ hrule, rfl⟩
        | succ i =>
          rw [hbefore] at hk
          omega
    · rw [if_neg hn, ih]
      constructor
      · rintro ⟨sheet, i, k, hsheet, hrule, hid, rfl, hk⟩
        refine ⟨sheet, i + 1, k, hsheet, hrule, hid, by omega, ?_⟩
        rw [hbefore]
        omega
      · rintro ⟨sheet, i, k, hsheet, hrule, hid, rfl, hk⟩
        cases i with
        | zero =>
          cases hsheet
          obtain ⟨hlt, -⟩ := Array.getElem?_eq_some_iff.mp hrule
          rw [List.take_zero, List.flatMap_nil, List.length_nil, Nat.zero_add] at hk
          exact absurd (hk ▸ hlt) hn
        | succ i =>
          rw [hbefore] at hk
          exact ⟨sheet, i, k, hsheet, hrule, hid, by omega, by omega⟩

/-- The rules of the registry are those of its sheets, counted on from sheet to sheet. -/
theorem getElem?_rules {n : Nat} {x : RegisteredRule} :
    registry.rules[n]? = some x ↔
      ∃ sheet k, registry.sheets[x.sheetIndex]? = some sheet ∧ sheet.rules[k]? = some x.rule ∧
        x.stylesheet = sheet.id ∧ n = registry.rulesBefore x.sheetIndex + k ∧
        x.sourceOrder = n := by
  obtain ⟨id, place, order, rule⟩ := x
  have hlisted := getElem?_flatMap_rules registry.sheets.toList 0 n id place rule
  rw [← sheetRules] at hlisted
  rw [rules, List.getElem?_map, List.getElem?_zipIdx, Option.map_map, Option.map_eq_some_iff]
  constructor
  · rintro ⟨⟨id', place', rule'⟩, hfound, heq⟩
    cases heq
    obtain ⟨sheet, i, k, hsheet, hrule, hid, rfl, hn⟩ := hlisted.mp hfound
    rw [Array.getElem?_toList] at hsheet
    rw [Nat.zero_add]
    exact ⟨sheet, k, hsheet, hrule, hid.symm, hn, Nat.zero_add n⟩
  · rintro ⟨sheet, k, hsheet, hrule, hid, hn, horder⟩
    have hfound := hlisted.mpr ⟨sheet, place, k, by rwa [Array.getElem?_toList], hrule, hid.symm,
      (Nat.zero_add place).symm, hn⟩
    refine ⟨_, hfound, ?_⟩
    cases horder
    simp

/-! ### One registration -/

/-- One registry becomes another as sheets with new ids are put behind the others. -/
inductive Extends (registry : Registry) : Registry → Prop
  | refl : Extends registry registry
  | push {registry' : Registry} {sheet : Stylesheet} (h : Extends registry registry')
      (hnew : sheet.id ∉ registry'.ids) : Extends registry (registry'.push sheet)

namespace Extends

theorem trans (h : registry.Extends registry') (h' : registry'.Extends registry'') :
    registry.Extends registry'' := by
  induction h' with
  | refl => exact h
  | push _ hnew ih => exact ih.push hnew

theorem faithful (h : registry.Extends registry') (hf : registry.Faithful) :
    registry'.Faithful := by
  induction h with
  | refl => exact hf
  | push _ hnew ih => exact ih.push (Bool.eq_false_iff.mpr (mt ih.contains_iff.mp hnew))

/-- Sheets keep their places. -/
theorem isPrefix (h : registry.Extends registry') :
    registry.sheets.toList <+: registry'.sheets.toList := by
  induction h with
  | refl => exact List.prefix_rfl
  | push _ _ ih =>
    rw [Registry.push, Array.toList_push]
    exact ih.trans (List.prefix_append _ _)

/-- An id keeps its sheet. -/
theorem get? (h : registry.Extends registry') (hf : registry.Faithful) {id : String}
    {sheet : Stylesheet} (hget : registry.get? id = some sheet) :
    registry'.get? id = some sheet := by
  obtain ⟨place, hplace, hsheet⟩ := Option.bind_eq_some_iff.mp hget
  have hsheet' : registry'.sheets[place]? = some sheet := by
    obtain ⟨more, hmore⟩ := h.isPrefix
    rw [← Array.getElem?_toList] at hsheet ⊢
    rw [← hmore, List.getElem?_append_left (List.getElem?_eq_some_iff.mp hsheet).1, hsheet]
  have hid : sheet.id = id := by
    rw [hf, hsheet] at hplace
    exact Option.some.inj hplace
  refine Option.bind_eq_some_iff.mpr ⟨place, ?_, hsheet'⟩
  rw [h.faithful hf, hsheet', Option.map_some, hid]

end Extends

theorem ids_push (registry : Registry) (sheet : Stylesheet) :
    (registry.push sheet).ids = registry.ids ++ [sheet.id] := by
  rw [ids, push, Array.toList_push, List.map_append, List.map_singleton, ← ids]

section

variable (h : registry.Faithful) (hread : KeepsId read)

include h hread

/-- A known id is passed over, a new one with an unreadable text is refused, and one with a
readable text is registered. -/
theorem Faithful.add_cases (id content : String) :
    (id ∈ registry.ids ∧ registry.add read id content = .ok (false, registry)) ∨
      (id ∉ registry.ids ∧ ∃ e, read id content = .error e ∧
        registry.add read id content = .error e) ∨
      id ∉ registry.ids ∧ ∃ sheet, sheet.id = id ∧ read id content = .ok sheet ∧
        registry.add read id content = .ok (true, registry.push sheet) := by
  rw [← h.contains_iff]
  unfold add
  split
  · next hknown => exact .inl ⟨hknown, rfl⟩
  · next hnew =>
    cases hsheet : read id content with
    | error e => exact .inr (.inl ⟨hnew, e, rfl, rfl⟩)
    | ok sheet => exact .inr (.inr ⟨hnew, sheet, hread id content sheet hsheet, rfl, rfl⟩)

/-- A failing addition is one of a new id with an unreadable text. -/
theorem Faithful.add_eq_error {id content : String} {e : ε} :
    registry.add read id content = .error e ↔
      id ∉ registry.ids ∧ read id content = .error e := by
  rcases h.add_cases hread id content with
    ⟨hknown, hadd⟩ | ⟨hnew, e', hfails, hadd⟩ | ⟨-, sheet, -, hsheet, hadd⟩
  · simp [hknown, hadd]
  · simp [hnew, hfails, hadd]
  · simp [hsheet, hadd]

omit hread in
theorem Faithful.extends_addSheet (sheet : Stylesheet) :
    registry.Extends (registry.addSheet sheet).2 := by
  rcases registry.addSheet_cases sheet with ⟨-, he⟩ | ⟨hnew, he⟩
  · rw [he]
    exact .refl
  · rw [he]
    refine Extends.refl.push fun hmem ↦ ?_
    rw [h.contains_iff.mpr hmem] at hnew
    cases hnew

theorem Faithful.extends_add {id content : String} {isNew : Bool}
    (hadd : registry.add read id content = .ok (isNew, registry')) :
    registry.Extends registry' := by
  rcases h.add_cases hread id content with
    ⟨-, he⟩ | ⟨-, e, -, he⟩ | ⟨hnew, sheet, hid, -, he⟩ <;> cases he.symm.trans hadd
  · exact .refl
  · exact Extends.refl.push (hid ▸ hnew)

end

/-! ### Sources -/

/-- A source is new if neither a registered sheet nor a source before it has its id. -/
def IsNew (registry : Registry) (before : List StyleSource) (source : StyleSource) : Prop :=
  source.id ∉ registry.ids ∧ source.id ∉ before.map StyleSource.id

instance (registry : Registry) (before : List StyleSource) (source : StyleSource) :
    Decidable (registry.IsNew before source) :=
  inferInstanceAs (Decidable (_ ∧ _))

/-- Every new source has a text that can be read. -/
def Readable (read : String → String → Except ε Stylesheet) (registry : Registry)
    (sources : List StyleSource) : Prop :=
  ∀ j (h : j < sources.length), registry.IsNew (sources.take j) sources[j] →
    (read sources[j].id sources[j].css).isOk

instance (read : String → String → Except ε Stylesheet) (registry : Registry)
    (sources : List StyleSource) : Decidable (registry.Readable read sources) :=
  inferInstanceAs (Decidable (∀ j (_ : j < sources.length), _))

/-- The ids of sources that no registered sheet has. -/
def newIds (registry : Registry) (sources : List StyleSource) : Finset String :=
  (sources.map StyleSource.id).toFinset \ registry.ids.toFinset

section

variable {source : StyleSource} {rest : List StyleSource}

theorem addSources_of_add {isNew : Bool}
    (h : registry.add read source.id source.css = .ok (isNew, registry')) :
    registry.addSources read (source :: rest) =
      ((registry'.addSources read rest).1.map (· + if isNew then 1 else 0),
        (registry'.addSources read rest).2) := by
  rw [addSources, h]

theorem addSources_of_add_error {e : ε}
    (h : registry.add read source.id source.css = .error e) :
    registry.addSources read (source :: rest) = (.error e, registry) := by
  rw [addSources, h]

/-- A known id is not counted. -/
theorem newIds_of_mem (hknown : source.id ∈ registry.ids) :
    registry.newIds (source :: rest) = registry.newIds rest := by
  rw [newIds, List.map_cons, List.toFinset_cons,
    Finset.insert_sdiff_of_mem _ (List.mem_toFinset.mpr hknown), newIds]

/-- A new id is counted where it is first met. -/
theorem card_newIds_of_notMem (hnew : source.id ∉ registry.ids) {sheet : Stylesheet}
    (hid : sheet.id = source.id) :
    (registry.newIds (source :: rest)).card = ((registry.push sheet).newIds rest).card + 1 := by
  have hnot : source.id ∉ (registry.push sheet).newIds rest := by
    simp [newIds, ids_push, hid]
  have hinsert : registry.newIds (source :: rest) =
      insert source.id ((registry.push sheet).newIds rest) := by
    ext id
    by_cases hsame : id = source.id <;> simp [newIds, ids_push, hid, hsame, hnew]
  rw [hinsert, Finset.card_insert_of_notMem hnot]

theorem Readable.head (h : registry.Readable read (source :: rest))
    (hnew : source.id ∉ registry.ids) : (read source.id source.css).isOk :=
  h 0 (Nat.succ_pos _) ⟨hnew, List.not_mem_nil⟩

/-- What is new to a registry that has the id of the first source was new behind that source. -/
theorem Readable.tail (h : registry.Readable read (source :: rest))
    (hids : ∀ id, id ∈ registry.ids ∨ id = source.id → id ∈ registry'.ids) :
    registry'.Readable read rest := by
  intro j hj hnew
  refine h (j + 1) (Nat.succ_lt_succ hj) ⟨fun hmem ↦ hnew.1 (hids _ (.inl hmem)), ?_⟩
  rw [List.take_succ_cons, List.map_cons, List.mem_cons, not_or]
  exact ⟨fun heq ↦ hnew.1 (hids _ (.inr heq)), hnew.2⟩

end

/-- Sources behind others that were registered are registered as if they came alone. -/
theorem addSources_append {before : List StyleSource} {n : Nat}
    (h : registry.addSources read before = (.ok n, registry'))
    (after : List StyleSource) :
    registry.addSources read (before ++ after) =
      ((registry'.addSources read after).1.map (· + n),
        (registry'.addSources read after).2) := by
  induction before generalizing registry n with
  | nil =>
    cases h
    rw [List.nil_append]
    refine Prod.ext ?_ rfl
    cases (registry'.addSources read after).1 <;> rfl
  | cons source rest ih =>
    rw [List.cons_append]
    cases hadd : registry.add read source.id source.css with
    | error e =>
      rw [addSources_of_add_error hadd] at h
      cases h
    | ok added =>
      obtain ⟨isNew, next⟩ := added
      rw [addSources_of_add hadd] at h ⊢
      cases hrest : next.addSources read rest with
      | mk answer last =>
        rw [hrest] at h
        cases answer with
        | error e => cases h
        | ok m =>
          cases h
          rw [ih hrest]
          refine Prod.ext ?_ rfl
          cases (last.addSources read after).1 with
          | error e => rfl
          | ok k => exact congrArg Except.ok (Nat.add_assoc k m _)

section

variable (h : registry.Faithful) (hread : KeepsId read) {sources : List StyleSource}

include h hread

/-- Whether or not a source fails, only sheets with new ids are put behind the others. -/
theorem Faithful.extends_addSources (sources : List StyleSource) :
    registry.Extends (registry.addSources read sources).2 := by
  induction sources generalizing registry with
  | nil => exact .refl
  | cons source rest ih =>
    cases hadd : registry.add read source.id source.css with
    | error e =>
      rw [addSources_of_add_error hadd]
      exact .refl
    | ok added =>
      have hextends := h.extends_add hread hadd
      rw [addSources_of_add hadd]
      exact hextends.trans (ih (hextends.faithful h))

/-- Readable sources are all registered, and the new ids are counted. -/
theorem Faithful.addSources_of_readable (hreadable : registry.Readable read sources) :
    ∃ registry', registry.addSources read sources =
        (.ok (registry.newIds sources).card, registry') ∧
      ∀ id, id ∈ registry'.ids ↔ id ∈ registry.ids ∨ id ∈ sources.map StyleSource.id := by
  induction sources generalizing registry with
  | nil => exact ⟨registry, by simp [addSources, newIds], by simp⟩
  | cons source rest ih =>
    rcases h.add_cases hread source.id source.css with
      ⟨hknown, hadd⟩ | ⟨hnew, e, hfails, -⟩ | ⟨hnew, sheet, hid, -, hadd⟩
    · have hids : ∀ id, id ∈ registry.ids ↔ id ∈ registry.ids ∨ id = source.id := by
        intro id
        rw [or_iff_left_of_imp]
        rintro rfl
        exact hknown
      obtain ⟨last, hlast, hmem⟩ := ih h (hreadable.tail fun id ↦ (hids id).mpr)
      refine ⟨last, ?_, fun id ↦ ?_⟩
      · rw [addSources_of_add hadd, hlast, newIds_of_mem hknown]
        rfl
      · rw [hmem, List.map_cons, List.mem_cons, ← or_assoc, ← hids]
    · have hok := hreadable.head hnew
      rw [hfails] at hok
      cases hok
    · have hids : ∀ id, id ∈ (registry.push sheet).ids ↔ id ∈ registry.ids ∨ id = source.id := by
        intro id
        rw [ids_push, List.mem_append, List.mem_singleton, hid]
      obtain ⟨last, hlast, hmem⟩ :=
        ih ((h.extends_add hread hadd).faithful h) (hreadable.tail fun id ↦ (hids id).mpr)
      refine ⟨last, ?_, fun id ↦ ?_⟩
      · rw [addSources_of_add hadd, hlast, card_newIds_of_notMem hnew hid]
        rfl
      · rw [hmem, hids, List.map_cons, List.mem_cons, or_assoc]

omit hread in
/-- Sources with known ids add nothing. -/
theorem Faithful.addSources_of_known (hknown : ∀ source ∈ sources, source.id ∈ registry.ids) :
    registry.addSources read sources = (.ok 0, registry) := by
  induction sources with
  | nil => rfl
  | cons source rest ih =>
    have hadd : registry.add read source.id source.css = .ok (false, registry) := by
      rw [add, if_pos (h.contains_iff.mpr (hknown source List.mem_cons_self))]
    rw [addSources_of_add hadd, ih fun s hs ↦ hknown s (List.mem_cons_of_mem _ hs)]
    rfl

/-- Sources up to the first new one that cannot be read are registered, and no more. -/
theorem Faithful.addSources_of_unreadable {j : Nat} (hj : j < sources.length)
    (hreadable : registry.Readable read (sources.take j))
    (hnew : registry.IsNew (sources.take j) sources[j]) {e : ε}
    (hfails : read sources[j].id sources[j].css = .error e) :
    registry.addSources read sources =
      (.error e, (registry.addSources read (sources.take j)).2) := by
  obtain ⟨last, hlast, hmem⟩ := h.addSources_of_readable hread hreadable
  have hfaithful : last.Faithful := by
    have hextends := h.extends_addSources hread (sources.take j)
    rw [hlast] at hextends
    exact hextends.faithful h
  have hadd : last.add read sources[j].id sources[j].css = .error e := by
    rw [hfaithful.add_eq_error hread, hmem, not_or]
    exact ⟨hnew, hfails⟩
  have hsplit : sources = sources.take j ++ sources[j] :: sources.drop (j + 1) := by
    rw [← List.drop_eq_getElem_cons hj, List.take_append_drop]
  have hrun := addSources_append hlast (sources[j] :: sources.drop (j + 1))
  rw [← hsplit, addSources_of_add_error hadd] at hrun
  rw [hrun, hlast]
  rfl

end

/-! ### Runs -/

/-- What is asked of a registry. -/
inductive Request
  | add (id content : String)
  | addSheet (sheet : Stylesheet)
  | addSources (sources : List StyleSource)
  | reset

/-- The registry that is left by a request. -/
def serve (read : String → String → Except ε Stylesheet) (registry : Registry) : Request → Registry
  | .add id content =>
    match registry.add read id content with
    | .ok (_, registry') => registry'
    | .error _ => registry
  | .addSheet sheet => (registry.addSheet sheet).2
  | .addSources sources => (registry.addSources read sources).2
  | .reset => .empty

/-- The registry that is left by requests one after the other. -/
def run (read : String → String → Except ε Stylesheet) (registry : Registry)
    (requests : List Request) : Registry :=
  requests.foldl (serve read) registry

/-- A registry as requests leave it that was empty at first. -/
def ofRequests (read : String → String → Except ε Stylesheet) (requests : List Request) :
    Registry :=
  empty.run read requests

section

variable (h : registry.Faithful) (hread : KeepsId read)

include h hread

/-- Every request but a reset puts sheets with new ids behind the others. -/
theorem Faithful.extends_serve {request : Request} (hreset : request ≠ .reset) :
    registry.Extends (registry.serve read request) := by
  cases request with
  | add id content =>
    rw [Registry.serve]
    split
    next hadd => exact h.extends_add hread hadd
    next => exact .refl
  | addSheet sheet => exact h.extends_addSheet sheet
  | addSources sources => exact h.extends_addSources hread sources
  | reset => exact absurd rfl hreset

theorem Faithful.extends_run {requests : List Request} (hreset : .reset ∉ requests) :
    registry.Extends (registry.run read requests) := by
  induction requests generalizing registry with
  | nil => exact .refl
  | cons request rest ih =>
    rw [List.mem_cons, not_or] at hreset
    have hextends := h.extends_serve hread (Ne.symm hreset.1)
    exact hextends.trans (ih (hextends.faithful h) hreset.2)

theorem Faithful.serve (request : Request) : (registry.serve read request).Faithful := by
  by_cases hreset : request = .reset
  · rw [hreset]
    exact faithful_empty
  · exact (h.extends_serve hread hreset).faithful h

theorem Faithful.run (requests : List Request) : (registry.run read requests).Faithful := by
  induction requests generalizing registry with
  | nil => exact h
  | cons request rest ih => exact ih (h.serve hread request)

end

/-- No id is registered twice, each has the place of its sheet, and the rules are those of the
sheets, counted on from sheet to sheet. -/
structure Consistent (registry : Registry) : Prop where
  distinct : registry.ids.Nodup
  faithful : registry.Faithful
  listed : ∀ n x, registry.rules[n]? = some x ↔
    ∃ sheet k, registry.sheets[x.sheetIndex]? = some sheet ∧ sheet.rules[k]? = some x.rule ∧
      x.stylesheet = sheet.id ∧ n = registry.rulesBefore x.sheetIndex + k ∧ x.sourceOrder = n

/-- Whatever the requests, and whatever reads the texts, the registry is consistent; a sheet keeps
its id and its place until a reset, a failing addition changes nothing, sources are registered up to
the first new one that cannot be read, and those that were registered add nothing a second time. -/
theorem consistent_ofRequests (hread : KeepsId read) (requests : List Request) :
    let r := ofRequests read requests
    r.Consistent ∧
      (∀ more, .reset ∉ more → r.sheets.toList <+: (r.run read more).sheets.toList ∧
        ∀ id sheet, r.get? id = some sheet → (r.run read more).get? id = some sheet) ∧
      (∀ id content e, r.add read id content = .error e ↔
        id ∉ r.ids ∧ read id content = .error e) ∧
      (∀ id content e, r.add read id content = .error e → r.serve read (.add id content) = r) ∧
      (∀ sources j (hj : j < sources.length) e, r.Readable read (sources.take j) →
        r.IsNew (sources.take j) sources[j] → read sources[j].id sources[j].css = .error e →
        r.addSources read sources = (.error e, (r.addSources read (sources.take j)).2)) ∧
      ∀ sources, r.Readable read sources →
        let r' := (r.addSources read sources).2
        r.addSources read sources = (.ok (r.newIds sources).card, r') ∧
          r'.addSources read sources = (.ok 0, r') := by
  intro r
  have h : r.Faithful := faithful_empty.run hread requests
  refine ⟨⟨h.nodup_ids, h, fun _ _ ↦ getElem?_rules⟩, ?_, fun _ _ _ ↦ h.add_eq_error hread, ?_,
    fun _ _ hj _ hreadable hnew ↦ h.addSources_of_unreadable hread hj hreadable hnew, ?_⟩
  · intro more hreset
    have hextends := h.extends_run hread hreset
    exact ⟨hextends.isPrefix, fun _ _ hget ↦ hextends.get? h hget⟩
  · intro id content e hadd
    rw [Registry.serve, hadd]
  · intro sources hreadable r'
    obtain ⟨last, hlast, hmem⟩ := h.addSources_of_readable hread hreadable
    have hr' : r' = last := congrArg Prod.snd hlast
    refine ⟨by rw [hr', hlast], ?_⟩
    have hfaithful := (h.extends_addSources hread sources).faithful h
    refine hfaithful.addSources_of_known fun source hsource ↦ ?_
    show source.id ∈ r'.ids
    rw [hr', hmem]
    exact .inr (List.mem_map_of_mem hsource)

/-- A text that cannot be read is passed over with a known id and refused with a new one: of the
sources, one is registered before the refused one, and it is not registered again. -/
theorem consistent_ofRequests_unreadable :
    let read := Stylesheet.read
    let r := ofRequests read [.add "a" "p\x7b\x7d", .add "b" "p", .addSheet (.empty "a" "p"),
      .addSources [⟨"c", "p\x7b\x7d"⟩, ⟨"a", "p"⟩]]
    let sources : List StyleSource := [⟨"a", "p"⟩, ⟨"d", ""⟩, ⟨"d", "p"⟩, ⟨"b", "p"⟩, ⟨"e", ""⟩]
    let r' := (r.addSources read (sources.take 3)).2
    KeepsId read ∧ r.ids = ["a", "c"] ∧ r.rules.map RegisteredRule.sourceOrder = [0, 1] ∧
      (∃ e, r.serve read (.add "b" "p") = r ∧ r.addSources read sources = (.error e, r')) ∧
      r.addSources read (sources.take 3) = (.ok 1, r') ∧
      r'.addSources read (sources.take 3) = (.ok 0, r') ∧
      r.sheets.toList <+: (r.run read [.addSources sources]).sheets.toList := by
  intro read r sources r'
  have hkeeps : KeepsId read := Stylesheet.keepsId_read
  have hids : r.ids = ["a", "c"] := by decide +kernel
  have hreadable : r.Readable read (sources.take 3) := by decide +kernel
  have hnew : r.IsNew (sources.take 3) ⟨"b", "p"⟩ := by decide +kernel
  have hcard : (r.newIds (sources.take 3)).card = 1 := by decide +kernel
  have hunreadable : (read "b" "p").isOk = false := by decide +kernel
  obtain ⟨e, hfault⟩ : ∃ e, read "b" "p" = .error e := by
    cases hsheet : read "b" "p" with
    | error e => exact ⟨e, rfl⟩
    | ok sheet =>
      rw [hsheet] at hunreadable
      cases hunreadable
  obtain ⟨-, hkept, hfails, hclean, hrefused, hadded⟩ := consistent_ofRequests hkeeps
    [.add "a" "p\x7b\x7d", .add "b" "p", .addSheet (.empty "a" "p"),
      .addSources [⟨"c", "p\x7b\x7d"⟩, ⟨"a", "p"⟩]]
  obtain ⟨hfirst, hagain⟩ := hadded (sources.take 3) hreadable
  have hadd := (hfails "b" "p" e).mpr ⟨hnew.1, hfault⟩
  refine ⟨hkeeps, hids, by decide +kernel, ⟨e, hclean "b" "p" e hadd, ?_⟩, ?_, hagain, ?_⟩
  · exact hrefused sources 3 (by decide) e hreadable hnew hfault
  · exact hcard ▸ hfirst
  · exact (hkept [.addSources sources] (by simp)).1

end Registry

end StyleCheck.Style
