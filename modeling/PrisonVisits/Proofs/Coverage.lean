import PrisonVisits.Proofs.CommonPrisoners
import PrisonVisits.Proofs.StoredNames
import PrisonVisits.Proofs.TimeOrder

/-! # Moves between templates

One restriction covers another exactly if it permits whomever the other permits, somebody without a
value included. Entries decide that: an entry is itself somebody whom its restriction permits, and
whoever falls under it falls under whatever stands for it. So a template that covers another admits
all of its prisoners, a template covers itself, and what a chain of moves allows one move allows. -/

namespace PrisonVisits

namespace Restriction

variable {α : Type} [Hierarchy α] {r wide middle narrow : Restriction α}

/-- The wide restriction permits whomever the narrow one permits. -/
def Includes (wide narrow : Restriction α) : Prop :=
  ∀ candidate, narrow.permits candidate = true → wide.permits candidate = true

theorem Includes.refl (r : Restriction α) : r.Includes r := fun _ h => h

theorem Includes.trans (h : wide.Includes middle) (h' : middle.Includes narrow) :
    wide.Includes narrow :=
  fun candidate hpermits => h candidate (h' candidate hpermits)

/-- A restriction with groups covers another one if that has groups too and its entries are under
entries of this one. -/
theorem covers_eq_true : wide.covers narrow = true ↔ wide.isOpen = true ∨
    ¬narrow.isOpen = true ∧ ∀ x ∈ narrow.entries, ∃ y ∈ wide.entries,
      Hierarchy.generalizes y x = true := by
  simp only [covers, Bool.or_eq_true, Bool.and_eq_true, Bool.not_eq_true', Bool.not_eq_true,
    List.all_eq_true, Hierarchy.isUnder, List.any_eq_true]

theorem covers_iff [LawfulHierarchy α] : wide.covers narrow = true ↔ wide.Includes narrow := by
  rw [covers_eq_true]
  constructor
  · rintro (hopen | ⟨hclosed, hentries⟩) candidate hpermits
    · exact permits_of_isOpen hopen candidate
    cases candidate with
    | none => exact absurd (permits_none.mp hpermits) hclosed
    | some c =>
      obtain ⟨x, hx, hxc⟩ := (permits_some.mp hpermits).resolve_left hclosed
      obtain ⟨y, hy, hyx⟩ := hentries x hx
      exact permits_some.mpr (.inr ⟨y, hy, LawfulHierarchy.trans hyx hxc⟩)
  · intro hincludes
    by_cases hopen : wide.isOpen = true
    · exact .inl hopen
    -- only an open restriction permits somebody without a value
    refine .inr ⟨fun hnarrow => hopen ?_, fun x hx => ?_⟩
    · exact permits_none.mp (hincludes none (permits_none.mpr hnarrow))
    · exact (permits_some.mp (hincludes (some x) (permits_entry hx))).resolve_left hopen

end Restriction

namespace SessionShape

/-- Whatever holds for a visit of the source holds for it in the target. -/
structure MovesTo (source target : SessionShape) : Prop where
  prison : source.template.prisonCode = target.template.prisonCode
  locations : target.eligibility.locations.Includes source.eligibility.locations
  categories : target.eligibility.categories.Includes source.eligibility.categories
  incentives : target.eligibility.incentives.Includes source.eligibility.incentives
  starts : target.template.startTime ≤ source.template.startTime
  ends : source.template.endTime ≤ target.template.endTime

variable {source target : SessionShape}

theorem gapsTo_eq_nil : source.gapsTo target = [] ↔ source.MovesTo target := by
  simp only [gapsTo, List.append_eq_nil_iff, ite_eq_left_iff, ite_eq_right_iff, List.cons_ne_nil,
    imp_false, Classical.not_not, not_or, Restriction.covers_iff, and_assoc]
  constructor
  · intro h
    obtain ⟨hprison, hlocations, hcategories, hincentives, hstarts, hends⟩ := h
    exact ⟨hprison, hlocations, hcategories, hincentives, not_lt.mp hstarts, not_lt.mp hends⟩
  · intro h
    exact ⟨h.prison, h.locations, h.categories, h.incentives, h.starts.not_gt, h.ends.not_gt⟩

namespace MovesTo

theorem refl (a : SessionShape) : a.MovesTo a where
  prison := rfl
  locations := .refl _
  categories := .refl _
  incentives := .refl _
  starts := le_rfl
  ends := le_rfl

theorem trans {a b c : SessionShape} (h : a.MovesTo b) (h' : b.MovesTo c) : a.MovesTo c where
  prison := h.prison.trans h'.prison
  locations := h'.locations.trans h.locations
  categories := h'.categories.trans h.categories
  incentives := h'.incentives.trans h.incentives
  starts := h'.starts.trans h.starts
  ends := h.ends.trans h'.ends

theorem allows (h : source.MovesTo target) {p : PrisonerContext}
    (hp : source.eligibility.allows p = true) : target.eligibility.allows p = true := by
  obtain ⟨hlocation, hcategory, hincentive⟩ := Eligibility.allows_iff.mp hp
  exact Eligibility.allows_iff.mpr ⟨h.locations _ hlocation, h.categories _ hcategory,
    h.incentives _ hincentive⟩

end MovesTo

end SessionShape

namespace Store

variable {s : Store}

/-- The template is stored, and what it asks of prisoners is known. -/
def HasShape (s : Store) (reference : Reference) (shape : SessionShape) : Prop :=
  s.template? reference = some shape.template ∧
    s.eligibilityOf shape.template = .ok shape.eligibility

theorem HasShape.unique {reference : Reference} {a b : SessionShape} (ha : s.HasShape reference a)
    (hb : s.HasShape reference b) : a = b := by
  obtain ⟨T, e⟩ := a
  obtain ⟨U, e'⟩ := b
  obtain ⟨hT, he⟩ := ha
  obtain ⟨hU, he'⟩ := hb
  cases hT.symm.trans hU
  cases he.symm.trans he'
  rfl

theorem checkMove_eq_ok {source target : Reference} : s.checkMove source target = .ok () ↔
    ∃ a b, s.HasShape source a ∧ s.HasShape target b ∧ a.MovesTo b := by
  simp only [checkMove, bind_eq_ok, Desk.getTemplate_eq_ok, shapeOf_eq_ok, require_eq_ok,
    List.isEmpty_iff, SessionShape.gapsTo_eq_nil]
  constructor
  · intro h
    obtain ⟨S, hS, T, hT, _, ⟨e, he, rfl⟩, _, ⟨e', he', rfl⟩, hmoves⟩ := h
    exact ⟨⟨S, e⟩, ⟨T, e'⟩, ⟨hS, he⟩, ⟨hT, he'⟩, hmoves⟩
  · intro h
    obtain ⟨⟨S, e⟩, ⟨T, e'⟩, ⟨hS, he⟩, ⟨hT, he'⟩, hmoves⟩ := h
    exact ⟨S, hS, T, hT, _, ⟨e, he, rfl⟩, _, ⟨e', he', rfl⟩, hmoves⟩

/-- A template with a shape moves onto itself, and moves can be made in one. -/
structure OrdersMoves (s : Store) : Prop where
  self : ∀ reference, s.checkMove reference reference = .ok () ↔ ∃ a, s.HasShape reference a
  chain : ∀ first second third, s.checkMove first second = .ok () →
    s.checkMove second third = .ok () → s.checkMove first third = .ok ()

theorem ordersMoves (s : Store) : s.OrdersMoves where
  self := by
    intro reference
    rw [checkMove_eq_ok]
    constructor
    · rintro ⟨a, -, ha, -⟩
      exact ⟨a, ha⟩
    · rintro ⟨a, ha⟩
      exact ⟨a, a, ha, ha, .refl a⟩
  chain := by
    intro first second third h h'
    obtain ⟨a, b, ha, hb, hab⟩ := checkMove_eq_ok.mp h
    obtain ⟨b', c, hb', hc, hbc⟩ := checkMove_eq_ok.mp h'
    cases hb.unique hb'
    exact checkMove_eq_ok.mpr ⟨a, c, ha, hc, hab.trans hbc⟩

theorem exists_hasShape (hgrouped : s.rows.Grouped) {reference : Reference} {T : SessionTemplate}
    (hT : s.template? reference = some T) : ∃ a, s.HasShape reference a := by
  obtain ⟨e, he⟩ := exists_eligibilityOf_eq_ok.mpr (hgrouped reference T hT)
  exact ⟨⟨T, e⟩, hT, he⟩

end Store

/-- Covering is inclusion in every dimension; a template without gaps to another one leaves it all
of its prisoners; and moves are in order, where all along every run from an empty journal each stored
template moves onto itself. -/
theorem covers_exactly (policy : BookingPolicy) (now : Moment)
    (prisoners : Std.ExtTreeMap String PrisonerContext) (references : ReferenceSource)
    (actions : List Action)
    (hrange : (Desk.openOn #[] policy now prisoners references).Throughout Desk.InRange actions) :
    (∀ wide narrow : Restriction LocationPath,
      wide.covers narrow = true ↔ wide.Includes narrow) ∧
    (∀ wide narrow : Restriction Category, wide.covers narrow = true ↔ wide.Includes narrow) ∧
    (∀ wide narrow : Restriction IncentiveLevel,
      wide.covers narrow = true ↔ wide.Includes narrow) ∧
    (∀ source target : SessionShape, source.gapsTo target = [] → ∀ p,
      source.eligibility.allows p = true → target.eligibility.allows p = true) ∧
    (∀ s : Store, s.OrdersMoves) ∧
    (Desk.openOn #[] policy now prisoners references).Throughout
      (fun d => ∀ reference T, d.store.template? reference = some T →
        d.store.checkMove reference reference = .ok ()) actions := by
  refine ⟨fun _ _ => Restriction.covers_iff, fun _ _ => Restriction.covers_iff,
    fun _ _ => Restriction.covers_iff, fun source target hgaps p hp => ?_, Store.ordersMoves, ?_⟩
  · exact (SessionShape.gapsTo_eq_nil.mp hgaps).allows hp
  · refine (Desk.kept_throughout Desk.preserved_grouped hrange False.elim).imp ?_
    intro d h reference T hT
    exact (d.store.ordersMoves.self reference).mpr (Store.exists_hasShape h.live hT)

namespace Sample

def wing : LocationPath := ⟨["A"], by decide, by decide, by decide⟩

def landing : LocationPath := ⟨["A", "1"], by decide, by decide, by decide⟩

/-- Template c is for a landing, template d for the whole wing. -/
def wings : List Action :=
  [.createGroup "HEI" "Landing" (.locations [landing]),
    .createGroup "HEI" "Wing" (.locations [wing]),
    .createTemplate { mondays with locationGroups := ["a"] },
    .createTemplate { mondays with locationGroups := ["b"] }]

theorem along_wings : desk.Along (Desk.AppendsAtMost 1000) wings := by
  refine ⟨⟨nofun, ?_, ?_⟩, ⟨nofun, ?_, ?_⟩, ⟨nofun, ?_, ?_⟩, ⟨nofun, ?_, ?_⟩, trivial⟩
  all_goals decide +kernel

end Sample

/-- Whoever is permitted on the landing is permitted in the wing, and not the other way round, as a
prisoner elsewhere in the wing shows. -/
theorem covers_exactly_sample :
    Sample.desk.Throughout Desk.InRange Sample.wings ∧
      (∀ candidate, (⟨[[Sample.landing]]⟩ : Restriction LocationPath).permits candidate = true →
        (⟨[[Sample.wing]]⟩ : Restriction LocationPath).permits candidate = true) ∧
      ¬(⟨[[Sample.landing]]⟩ : Restriction LocationPath).Includes ⟨[[Sample.wing]]⟩ ∧
      (Sample.desk.run Sample.wings).store.checkMove "c" "c" = .ok () ∧
      (Sample.desk.run Sample.wings).store.checkMove "c" "d" = .ok () := by
  have hrange := Desk.throughout_inRange (m := 0) (by decide) (by decide +kernel)
    Sample.along_wings (by decide)
  obtain ⟨hlocations, -, -, -, -, hself⟩ := covers_exactly Sample.policy _ _ Sample.letters
    Sample.wings hrange
  have hstored : ((Sample.desk.run Sample.wings).store.template? "c").isSome = true := by
    decide +kernel
  obtain ⟨T, hT⟩ := Option.isSome_iff_exists.mp hstored
  refine ⟨hrange, (hlocations _ _).mp (by decide), fun h => ?_, hself.last "c" T hT,
    by decide +kernel⟩
  exact absurd ((hlocations _ _).mpr h) (by decide)

end PrisonVisits
