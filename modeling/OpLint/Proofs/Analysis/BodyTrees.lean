import OpLint.Proofs.Analysis.Crew
import OpLint.Proofs.Analysis.SelfAssignments

/-!
# Only the trees of the bodies count

Operations are stored in a row, and all that an analysis does with them is done by place: it
follows references down, links up, and compares places. How the operations are numbered is
left to whoever writes the unit, and so is what else is stored besides the bodies. None of
this can be seen in an outcome. Units whose bodies are the same trees have the same outcome.

The built-in rules give, body by body, what the tree of the body says, and this is all there
is to it: what one body gives does not depend on the other bodies, and a body is left out
because of its unit only.
-/

namespace OpLint

open InfiniteRecursion

namespace CompilationUnit

/-- The tree of a body. -/
def bodyTree? (u : CompilationUnit) (b : Body) : Option Tree :=
  b.root.position?.bind u.forest.tree?

/-- Units of the same file with the same symbols whose bodies are the same trees. The source
and the operations outside of the bodies may differ, and the places of all. -/
structure SameBodies (u v : CompilationUnit) : Prop where
  file : u.file = v.file
  generated : u.generated = v.generated
  symbols : u.symbols = v.symbols
  bodies : List.Forall₂ (fun b c => b.method = c.method ∧ u.bodyTree? b = v.bodyTree? c)
    u.bodies v.bodies

variable {u v : CompilationUnit} {b c : Body}

theorem SameBodies.selfAssignments (h : u.SameBodies v) (hmethod : b.method = c.method)
    (htree : u.bodyTree? b = v.bodyTree? c) : u.selfAssignments b = v.selfAssignments c := by
  have hroot : b.root.position?.bind u.forest.tree? = c.root.position?.bind v.forest.tree? := htree
  rw [CompilationUnit.selfAssignments, CompilationUnit.selfAssignments, h.file, h.symbols, hmethod,
    hroot]

end CompilationUnit

namespace Analyzer

variable {o : Options} {u v : CompilationUnit} {b c : Body}

theorem alone_builtIn_congr (hu : u.Checked) (hv : v.Checked) (h : u.SameBodies v)
    (hb : b ∈ u.bodies) (hc : c ∈ v.bodies) (hmethod : b.method = c.method)
    (htree : u.bodyTree? b = v.bodyTree? c) :
    (ofRules o Rule.builtIn).alone u b = (ofRules o Rule.builtIn).alone v c := by
  obtain ⟨hfound, hfaults, -⟩ := harvestBody_builtIn o hu hb
  obtain ⟨hfound', hfaults', -⟩ := harvestBody_builtIn o hv hc
  obtain ⟨m, hm⟩ := hu.methods b hb
  obtain ⟨n, hn⟩ := hv.methods c hc
  rw [alone_eq, alone_eq, hfound, hfound', hfaults, hfaults',
    skips_eq_of_known (by rw [hm]; rfl), skips_eq_of_known (by rw [hn]; rfl), h.generated,
    h.selfAssignments hmethod htree]

theorem map_eq_map_of_forall₂ {α β γ : Type} {R : α → β → Prop} {f : α → γ} {g : β → γ}
    {as : List α} {bs : List β} (h : List.Forall₂ R as bs)
    (hfg : ∀ a ∈ as, ∀ b ∈ bs, R a b → f a = g b) : as.map f = bs.map g := by
  induction h with
  | nil => rfl
  | cons hab _ ih =>
      rw [List.map_cons, List.map_cons, hfg _ List.mem_cons_self _ List.mem_cons_self hab,
        ih fun a ha b hb => hfg a (List.mem_cons_of_mem _ ha) b (List.mem_cons_of_mem _ hb)]

theorem map_alone_builtIn_congr {us vs : List CompilationUnit} (hus : ∀ u ∈ us, u.Checked)
    (hvs : ∀ v ∈ vs, v.Checked) (h : List.Forall₂ CompilationUnit.SameBodies us vs) :
    ((bodiesOf us).map fun p => (ofRules o Rule.builtIn).alone p.1 p.2) =
      (bodiesOf vs).map fun p => (ofRules o Rule.builtIn).alone p.1 p.2 := by
  rw [bodiesOf, bodiesOf, List.map_flatMap, List.map_flatMap, List.flatMap_def, List.flatMap_def]
  refine congrArg List.flatten (map_eq_map_of_forall₂ h fun u hu v hv huv => ?_)
  rw [List.map_map, List.map_map]
  refine map_eq_map_of_forall₂ huv.bodies fun b hb c hc hbc => ?_
  exact alone_builtIn_congr (hus u hu) (hvs v hv) huv hb hc hbc.1 hbc.2

theorem cancels_harvestBody_builtIn {units : List CompilationUnit}
    (h : ∀ u ∈ units, u.Checked) : ∀ p ∈ bodiesOf units,
      ((ofRules o Rule.builtIn).harvestBody p.1 p.2).effects.cancels = false := by
  intro p hp
  obtain ⟨hu, hb⟩ := mem_bodiesOf.1 hp
  exact (harvestBody_builtIn o (h p.1 hu) hb).2.2

end Analyzer

open Analyzer

/-- An outcome depends on the trees of the bodies only. Whatever the options, and whether the
bodies are taken one by one or by several workers, as long as nobody asks for cancellation
the outcomes for units with the same bodies are the same. -/
theorem outcome_of_bodyTrees (o : Options) (us vs : List CompilationUnit)
    (hus : ∀ u ∈ us, ∃ text, CompilationUnit.ofText text = .ok u)
    (hvs : ∀ v ∈ vs, ∃ text, CompilationUnit.ofText text = .ok v)
    (h : List.Forall₂ CompilationUnit.SameBodies us vs) :
    let a := ofRules o Rule.builtIn
    a.analyze false us = a.analyze false vs ∧
      ∀ concurrent concurrent' schedule schedule',
        let c := Crew.after a concurrent false (workItems us) schedule
        let d := Crew.after a concurrent' false (workItems vs) schedule'
        c.Done → c.run.stopping = false → d.Done → d.run.stopping = false →
          c.run.outcome a = d.run.outcome a ∧ d.run.outcome a = a.analyze false vs := by
  intro a
  have hus : ∀ u ∈ us, u.Checked := by
    intro u hu
    obtain ⟨text, htext⟩ := hus u hu
    exact CompilationUnit.checked_of_ofText htext
  have hvs : ∀ v ∈ vs, v.Checked := by
    intro v hv
    obtain ⟨text, htext⟩ := hvs v hv
    exact CompilationUnit.checked_of_ofText htext
  have hanalyze : a.analyze false us = a.analyze false vs := by
    rw [a.analyze_eq_alone (cancels_harvestBody_builtIn hus),
      a.analyze_eq_alone (cancels_harvestBody_builtIn hvs), map_alone_builtIn_congr hus hvs h]
  refine ⟨hanalyze, ?_⟩
  intro concurrent concurrent' schedule schedule' c d hc hcstopping hd hdstopping
  have houtcome := (Crew.sound_after schedule).outcome_eq_analyze hc hcstopping
    (cancels_harvestBody_builtIn hus)
  have houtcome' := (Crew.sound_after schedule').outcome_eq_analyze hd hdstopping
    (cancels_harvestBody_builtIn hvs)
  exact ⟨houtcome.trans (hanalyze.trans houtcome'.symm), houtcome'⟩

/-- `recursiveSetter` with its operations in another order, and with one that is in no body. -/
def renumberedSetter : CompilationUnit :=
  { recursiveSetter with
    bodies := [⟨0, ⟨4⟩⟩]
    forest := ⟨#[⟨.literal "1", .empty, none⟩, ⟨.parameterReference "value", .empty, some 4⟩,
      ⟨.instanceReference .containingTypeInstance true, .empty, some 3⟩,
      ⟨.propertyReference 0 ⟨2⟩ [], .empty, some 4⟩,
      ⟨.simpleAssignment ⟨3⟩ ⟨1⟩, ⟨3, 9⟩, none⟩]⟩ }

theorem tree?_renumberedSetter :
    (Ref.mk 4).position?.bind renumberedSetter.forest.tree? = some setterTree :=
  tree?_eq_setterTree (Forest.check_eq_ok_iff.1 rfl) rfl rfl rfl rfl

theorem sameBodies_renumberedSetter : recursiveSetter.SameBodies renumberedSetter where
  file := rfl
  generated := rfl
  symbols := rfl
  bodies := .cons ⟨rfl, tree?_recursiveSetter.trans tree?_renumberedSetter.symm⟩ .nil

theorem alone_recursiveSetter :
    (ofRules .default Rule.builtIn).alone recursiveSetter ⟨0, ⟨3⟩⟩ =
      ⟨[report "a.cs" ⟨"P", "T", false, .empty⟩ ⟨3, 9⟩ false], 1, 0, 0, false⟩ := by
  have hchecked : recursiveSetter.Checked := CompilationUnit.checked_of_check rfl
  obtain ⟨hfound, hfaults, -⟩ := harvestBody_builtIn .default hchecked (List.mem_singleton_self _)
  have hskips : (ofRules .default Rule.builtIn).skips recursiveSetter ⟨0, ⟨3⟩⟩ = false :=
    skips_eq_of_known rfl
  rw [alone_eq, hfound, hfaults, hskips, selfAssignments_recursiveSetter]
  rfl

theorem outcome_of_bodyTrees_renumbered :
    let a := ofRules .default Rule.builtIn
    let found : Diagnostic :=
      ⟨"a.cs", 3, 6, "Do not assign the property 'P' within its setter. " ++
        "This call will result in an infinite recursion.", .warning, "CA2011", .reliability, []⟩
    a.analyze false [recursiveSetter] = ⟨[found], 1, 0, 0, false⟩ ∧
      a.analyze false [renumberedSetter] = ⟨[found], 1, 0, 0, false⟩ := by
  intro a found
  have hread {u : CompilationUnit} (h : u.parts.load = .ok u) :
      ∀ v ∈ [u], ∃ text, CompilationUnit.ofText text = .ok v := by
    intro v hv
    rw [List.mem_singleton.1 hv]
    exact ⟨_, (CompilationUnit.ofText_text_eq_ok_iff_load _).2 h⟩
  have hsame : a.analyze false [recursiveSetter] = a.analyze false [renumberedSetter] :=
    (outcome_of_bodyTrees .default [recursiveSetter] [renumberedSetter] (hread rfl) (hread rfl)
      (.cons sameBodies_renumberedSetter .nil)).1
  have hchecked : ∀ u ∈ [recursiveSetter], u.Checked :=
    List.forall_mem_singleton.2 (CompilationUnit.checked_of_check rfl)
  have houtcome : a.analyze false [recursiveSetter] = ⟨[found], 1, 0, 0, false⟩ := by
    have halone : ((bodiesOf [recursiveSetter]).map fun p => a.alone p.1 p.2) = _ :=
      congrArg ([·]) alone_recursiveSetter
    rw [a.analyze_eq_alone (cancels_harvestBody_builtIn hchecked), halone]
    rfl
  exact ⟨houtcome, hsame.symm.trans houtcome⟩

end OpLint
