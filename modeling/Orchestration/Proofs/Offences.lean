import Orchestration.Proofs.Compilation

/-! Why a compilation fails. A draft is settled state by state, and the first offence in it decides:
a listing without a node, a node listed before, or a region begun before. Other states never clash. -/

set_option autoImplicit false

namespace Orchestration

/-- What a draft has a place for, by where it comes from. -/
inductive Emission where
  | node (listing : Listing)
  | start (region : String) (batch : Nat)
  | join (region : String) (batch : Nat)
  deriving DecidableEq, Repr

def Emission.name : Emission → StateId
  | node listing => .task listing.node
  | start region batch => .batchStart region batch
  | join region batch => .batchJoin region batch

def Emission.opening? : Emission → Option Emission
  | node _ => none
  | start region _ => some (start region 1)
  | join region _ => some (start region 1)

def Chain.emissions (chain : Chain) : List Emission :=
  chain.listings.map .node

def Region.batchEmissions (region : Region) (batch : List String) (number : Nat) : List Emission :=
  .start region.id number :: batch.map (fun key => .node ⟨⟨.region, region.id⟩, key⟩) ++
    [.join region.id number]

def Region.emissions (region : Region) : List Emission :=
  region.numbered.flatMap fun numbered => region.batchEmissions numbered.1 numbered.2

def Partition.emissions (partition : Partition) : List Emission :=
  partition.chains.flatMap Chain.emissions ++ partition.regions.flatMap Region.emissions

/-- What is wrong with an emission that comes after others. -/
inductive Offence (graph : Graph) (earlier : List Emission) : Emission → CompileError → Prop where
  | unknown {listing : Listing} (absent : graph.contains listing.node = false) :
      Offence graph earlier (.node listing) (.unknownNode listing)
  | repeatedNode {listing other : Listing} (known : graph.contains listing.node = true)
      (listed : .node other ∈ earlier) (same : other.node = listing.node) :
      Offence graph earlier (.node listing) (.repeatedState (StateId.task listing.node).text)
  | repeatedRegion {region : String} (begun : .start region 1 ∈ earlier) :
      Offence graph earlier (.start region 1) (.repeatedState (StateId.batchStart region 1).text)

/-- The offence that is met first in a list that comes after other emissions. -/
inductive FirstOffence (graph : Graph) : List Emission → List Emission → CompileError → Prop where
  | here {earlier later : List Emission} {emission : Emission} {error : CompileError}
      (offence : Offence graph earlier emission error) :
      FirstOffence graph earlier (emission :: later) error
  | later {earlier later : List Emission} {emission : Emission} {error : CompileError}
      (clear : ∀ other, ¬ Offence graph earlier emission other)
      (first : FirstOffence graph (earlier ++ [emission]) later error) :
      FirstOffence graph earlier (emission :: later) error

variable {graph : Graph} {partition : Partition} {settings : Settings}

/-- What settling sees of the slot for an emission: its id, or the listing that names no node. -/
def Emission.mark (graph : Graph) : Emission → Except Listing String
  | node listing =>
    if graph.contains listing.node then .ok (StateId.task listing.node).text else .error listing
  | start region batch => .ok (StateId.batchStart region batch).text
  | join region batch => .ok (StateId.batchJoin region batch).text

theorem Emission.mark_eq_ok {emission : Emission} {id : String} (marked : emission.mark graph = .ok id) :
    id = emission.name.text := by
  cases emission with
  | node listing =>
    cases known : graph.contains listing.node <;> simp only [mark, known] at marked <;> cases marked
    rfl
  | start => exact (Except.ok.inj marked).symm
  | join => exact (Except.ok.inj marked).symm

namespace Graph.SelfKeyed

variable (selfKeyed : graph.SelfKeyed)
include selfKeyed

theorem mark_slot (listing : Listing) (next : String) :
    (listing.slot graph next).map State.id = (Emission.node listing).mark graph := by
  unfold Listing.slot Emission.mark
  cases found : graph.find? listing.node with
  | none =>
    have absent : graph.contains listing.node = false := by
      rw [← Bool.not_eq_true, contains_iff]
      simp [found]
    simp [absent, Except.map]
  | some node =>
    have known := contains_iff.2 ⟨node, found⟩
    simp [known, Except.map, State.id, Node.stage, selfKeyed _ node found]

theorem marks_chain (chain : Chain) :
    (chain.draft graph).map (·.map State.id) = chain.emissions.map (Emission.mark graph) := by
  conv_rhs => rw [Chain.emissions, ← chain.map_fst_zip, List.map_map, List.map_map, List.map_zip_eq_zipWith]
  rw [Chain.draft, List.map_zipWith]
  simp only [selfKeyed.mark_slot]
  rfl

theorem marks_region (region : Region) :
    (region.draft graph).map (·.map State.id) = region.emissions.map (Emission.mark graph) := by
  rw [Region.draft, Region.emissions, List.map_flatMap, List.map_flatMap]
  apply List.flatMap_congr
  intro numbered _
  simp only [Region.batchDraft, Region.batchEmissions, List.map_append, List.map_cons, List.map_map,
    Function.comp_def, selfKeyed.mark_slot]
  rfl

theorem marks_draft (partition : Partition) :
    (partition.chains.flatMap (Chain.draft graph) ++ partition.regions.flatMap (Region.draft graph)).map
        (·.map State.id) = partition.emissions.map (Emission.mark graph) := by
  simp only [Partition.emissions, List.map_append, List.map_flatMap, selfKeyed.marks_chain,
    selfKeyed.marks_region]

end Graph.SelfKeyed

/-- No start or join is more frequent than the start of the first batch of its region. -/
def Opened (emissions : List Emission) : Prop :=
  ∀ emission opening, Emission.opening? emission = some opening →
    emissions.count emission ≤ emissions.count opening

theorem Opened.append {first second : List Emission} (opened : Opened first) (more : Opened second) :
    Opened (first ++ second) := by
  intro emission opening opens
  rw [List.count_append, List.count_append]
  exact Nat.add_le_add (opened emission opening opens) (more emission opening opens)

theorem prefix_append_cases {α : Type} {front first second : List α} (before : front <+: first ++ second) :
    front <+: first ∨ ∃ rest, front = first ++ rest ∧ rest <+: second := by
  rcases List.prefix_or_prefix_of_prefix before (List.prefix_append first second) with inside | ⟨rest, rfl⟩
  · exact .inl inside
  · exact .inr ⟨rest, rfl, (List.prefix_append_right_inj first).1 before⟩

theorem opened_flatMap {α : Type} {sources : List α} {emissions : α → List Emission}
    (each : ∀ source ∈ sources, ∀ front, front <+: emissions source → Opened front)
    {front : List Emission} (before : front <+: sources.flatMap emissions) : Opened front := by
  induction sources generalizing front with
  | nil =>
    obtain rfl : front = [] := List.prefix_nil.1 before
    exact fun _ _ _ => Nat.le_refl 0
  | cons source rest ih =>
    rcases prefix_append_cases before with inside | ⟨later, rfl, inRest⟩
    · exact each source List.mem_cons_self front inside
    · exact (each source List.mem_cons_self _ (List.prefix_refl _)).append
        (ih (fun other member => each other (List.mem_cons_of_mem _ member)) inRest)

theorem Chain.opened (chain : Chain) {front : List Emission} (before : front <+: chain.emissions) :
    Opened front := by
  intro emission opening opens
  have absent : emission ∉ front := by
    intro member
    obtain ⟨listing, _, rfl⟩ := List.mem_map.1 (before.subset member)
    cases opens
  rw [List.count_eq_zero_of_not_mem absent]
  exact Nat.zero_le _

namespace Region

variable {region : Region} {emission opening : Emission}

theorem opening_eq (member : emission ∈ region.emissions) (opens : emission.opening? = some opening) :
    opening = .start region.id 1 := by
  obtain ⟨numbered, _, inBatch⟩ := List.mem_flatMap.1 member
  simp only [batchEmissions, List.mem_append, List.mem_cons, List.mem_map, List.not_mem_nil, or_false] at inBatch
  rcases inBatch with (rfl | ⟨key, _, rfl⟩) | rfl <;> cases opens <;> rfl

theorem count_emissions_le (region : Region) (opens : emission.opening? = some opening) :
    region.emissions.count emission ≤ 1 := by
  have kept : emission.opening?.isSome = true := by rw [opens]; rfl
  have starts : ∀ numbered : List String × Nat,
      (region.batchEmissions numbered.1 numbered.2).filter (·.opening?.isSome) =
        [.start region.id numbered.2, .join region.id numbered.2] := by
    intro numbered
    have nodes : (numbered.1.map fun key => Emission.node ⟨⟨.region, region.id⟩, key⟩).filter
        (·.opening?.isSome) = [] := by
      simp [List.filter_eq_nil_iff, Emission.opening?]
    rw [batchEmissions, List.filter_append, List.filter_cons_of_pos rfl, nodes]
    rfl
  have apart : region.numbered.Pairwise fun first second => first.2 ≠ second.2 := by
    rw [← List.pairwise_map, Partition.map_snd_numbered]
    exact List.nodup_range'
  have distinct : (region.emissions.filter (·.opening?.isSome)).Nodup := by
    rw [emissions, List.filter_flatMap]
    simp only [starts]
    refine List.nodup_flatMap.2 ⟨fun numbered _ => by simp, apart.imp fun different => ?_⟩
    simp [Function.onFun, different.symm]
  rw [← List.count_filter (p := (·.opening?.isSome)) kept]
  exact List.nodup_iff_count_le_one.1 distinct emission

theorem opened (region : Region) {front : List Emission} (before : front <+: region.emissions) :
    Opened front := by
  intro emission opening opens
  by_cases member : emission ∈ front
  · obtain rfl := opening_eq (before.subset member) opens
    have first : Emission.start region.id 1 ∈ front := by
      -- a region begins with the start of its first batch, and so does each front of it that is not empty
      cases front with
      | nil => cases member
      | cons head rest =>
        cases batches : region.batches with
        | nil => simp [emissions, numbered, batches] at before
        | cons batch more =>
          simp only [emissions, numbered, batches, List.zipIdx_cons, List.flatMap_cons, batchEmissions,
            List.cons_append] at before
          rw [(List.cons_prefix_cons.1 before).1]
          exact List.mem_cons_self
    calc front.count emission ≤ region.emissions.count emission := before.sublist.count_le emission
      _ ≤ 1 := region.count_emissions_le opens
      _ ≤ front.count (.start region.id 1) := List.count_pos_iff.2 first
  · rw [List.count_eq_zero_of_not_mem member]
    exact Nat.zero_le _

end Region

theorem Partition.opened {front : List Emission} (before : front <+: partition.emissions) : Opened front := by
  have inChains : ∀ {front : List Emission}, front <+: partition.chains.flatMap Chain.emissions → Opened front :=
    fun before => opened_flatMap (fun chain _ _ => chain.opened) before
  rcases prefix_append_cases before with inside | ⟨rest, rfl, inRegions⟩
  · exact inChains inside
  · exact (inChains (List.prefix_refl _)).append (opened_flatMap (fun region _ _ => region.opened) inRegions)

section

variable {earlier rest : List Emission} {emission : Emission} {error : CompileError} {id : String}

theorem Offence.unknown_of_mark {listing : Listing} (marked : emission.mark graph = .error listing) :
    Offence graph earlier emission (.unknownNode listing) := by
  cases emission with
  | node other =>
    cases known : graph.contains other.node <;> simp only [Emission.mark, known] at marked <;> cases marked
    exact .unknown known
  | start => cases marked
  | join => cases marked

theorem Offence.error_eq (offence : Offence graph earlier emission error) :
    (∃ listing, emission.mark graph = .error listing ∧ error = .unknownNode listing) ∨
      emission.mark graph = .ok emission.name.text ∧ error = .repeatedState emission.name.text ∧
        ∃ other ∈ earlier, other.name = emission.name := by
  cases offence with
  | unknown absent => exact .inl ⟨_, by simp [Emission.mark, absent], rfl⟩
  | repeatedNode known listed same =>
    exact .inr ⟨by simp [Emission.mark, known, Emission.name], rfl, _, listed, congrArg StateId.task same⟩
  | repeatedRegion begun => exact .inr ⟨rfl, rfl, _, begun, rfl⟩

/-- While every region has begun once, a state that was there before is a node's or begins a region. -/
theorem Offence.of_repeated (whole : earlier ++ emission :: rest = partition.emissions)
    (once : ∀ region, earlier.count (.start region 1) ≤ 1) (marked : emission.mark graph = .ok id)
    {other : Emission} (before : other ∈ earlier) (same : other.name = emission.name) :
    Offence graph earlier emission (.repeatedState emission.name.text) := by
  have front : earlier ++ [emission] <+: partition.emissions := ⟨rest, by rw [← whole]; simp⟩
  -- a start or join that comes twice needs two beginnings of its region before it
  have clash : ∀ region, emission.opening? = some (.start region 1) → emission ∈ earlier →
      emission = .start region 1 := by
    intro region opens member
    by_contra different
    have counts := Partition.opened front emission (.start region 1) opens
    have present := List.count_pos_iff.2 member
    have begun := once region
    rw [List.count_append, List.count_append, List.count_singleton_self,
      List.count_singleton, if_neg (by simpa using different)] at counts
    omega
  cases emission with
  | node listing =>
    cases known : graph.contains listing.node with
    | false => simp [Emission.mark, known] at marked
    | true =>
      cases other with
      | node earlierListing => exact .repeatedNode known before (StateId.task.inj same)
      | start => cases same
      | join => cases same
  | start region number =>
    cases other with
    | start =>
      obtain ⟨rfl, rfl⟩ := StateId.batchStart.inj same
      cases clash _ rfl before
      exact .repeatedRegion before
    | node => cases same
    | join => cases same
  | join region number =>
    cases other with
    | join =>
      obtain ⟨rfl, rfl⟩ := StateId.batchJoin.inj same
      cases clash _ rfl before
    | node => cases same
    | start => cases same

theorem Offence.unique {other : CompileError} (offence : Offence graph earlier emission error)
    (also : Offence graph earlier emission other) : other = error := by
  cases offence with
  | unknown absent =>
    cases also with
    | unknown => rfl
    | repeatedNode known => simp [absent] at known
  | repeatedNode known =>
    cases also with
    | unknown absent => simp [absent] at known
    | repeatedNode => rfl
  | repeatedRegion =>
    cases also
    rfl

theorem firstOffence_cons_of_offence (offence : Offence graph earlier emission error) {other : CompileError} :
    FirstOffence graph earlier (emission :: rest) other ↔ error = other := by
  constructor
  · intro first
    cases first with
    | here found => exact (offence.unique found).symm
    | later clear => exact absurd offence (clear error)
  · rintro rfl
    exact .here offence

theorem firstOffence_cons_of_clear (clear : ∀ other, ¬ Offence graph earlier emission other) :
    FirstOffence graph earlier (emission :: rest) error ↔
      FirstOffence graph (earlier ++ [emission]) rest error := by
  constructor
  · intro first
    cases first with
    | here found => exact absurd found (clear error)
    | later _ onward => exact onward
  · exact .later clear

def endings : List State :=
  [.final Ending.success.id, .final Ending.failure.id]

theorem settle_state_eq_error_iff {seen : List String} {state : State} {slots : List Slot} :
    settle seen (.ok state :: slots) = .error error ↔
      state.id ∈ seen ∧ .repeatedState state.id = error ∨
        state.id ∉ seen ∧ settle (state.id :: seen) slots = .error error := by
  by_cases old : state.id ∈ seen
  · simp [settle, old]
  · cases settled : settle (state.id :: seen) slots <;> simp [settle, old, settled, Except.map]

theorem Emission.name_ne_final (emission : Emission) (ending : Ending) : emission.name ≠ .final ending := by
  intro same
  cases emission <;> cases same

structure Seen (earlier : List Emission) (seen : List String) : Prop where
  once : ∀ region, earlier.count (.start region 1) ≤ 1
  names : ∀ id, id ∈ seen ↔ ∃ emission ∈ earlier, emission.name.text = id

theorem Seen.concat {seen : List String} (before : Seen earlier seen)
    (clear : ∀ error, ¬ Offence graph earlier emission error) (named : id = emission.name.text) :
    Seen (earlier ++ [emission]) (id :: seen) := by
  constructor
  · intro region
    rw [List.count_append, List.count_singleton]
    split
    next same =>
      obtain rfl : emission = .start region 1 := by simpa using same
      have fresh : Emission.start region 1 ∉ earlier := fun begun => clear _ (.repeatedRegion begun)
      rw [List.count_eq_zero_of_not_mem fresh]
    next => exact before.once region
  · intro other
    simp only [List.mem_cons, before.names, named, List.mem_append, List.not_mem_nil, or_false]
    grind

/-- An id that has been seen makes an offence. -/
theorem Seen.offence {seen : List String} (before : Seen earlier seen)
    (whole : earlier ++ emission :: rest = partition.emissions) (marked : emission.mark graph = .ok id)
    (old : id ∈ seen) : Offence graph earlier emission (.repeatedState id) := by
  obtain ⟨other, present, same⟩ := (before.names id).1 old
  rw [emission.mark_eq_ok marked] at same ⊢
  exact .of_repeated whole before.once marked present (StateId.text_injective same)

/-- A state whose id is new is none. -/
theorem Seen.clear {seen : List String} (before : Seen earlier seen) (marked : emission.mark graph = .ok id)
    (new : id ∉ seen) (error : CompileError) : ¬ Offence graph earlier emission error := by
  intro offence
  rcases offence.error_eq with ⟨listing, unknown, _⟩ | ⟨_, _, twin, present, same⟩
  · cases marked.symm.trans unknown
  · exact new ((before.names id).2 ⟨twin, present, by rw [same, emission.mark_eq_ok marked]⟩)

theorem Seen.settle_endings {seen : List String} (before : Seen earlier seen) :
    settle seen (endings.map .ok) = .ok endings := by
  have other : ∀ ending : Ending, ending.id ∉ seen := by
    intro ending member
    obtain ⟨emission, _, same⟩ := (before.names _).1 member
    exact emission.name_ne_final ending (StateId.text_injective same)
  refine settle_eq_ok_iff.2 ⟨rfl, by decide, fun state member => ?_⟩
  rcases List.mem_pair.1 member with rfl | rfl
  · exact other .success
  · exact other .failure

/-- What is settled after some emissions fails as the first offence among the others says. -/
theorem settle_eq_error_iff {front : List Slot} {seen : List String} (before : Seen earlier seen)
    (marks : front.map (·.map State.id) = rest.map (Emission.mark graph))
    (whole : earlier ++ rest = partition.emissions) :
    settle seen (front ++ endings.map .ok) = .error error ↔ FirstOffence graph earlier rest error := by
  induction rest generalizing earlier front seen with
  | nil =>
    obtain rfl := List.map_eq_nil_iff.1 marks
    rw [List.nil_append, before.settle_endings]
    refine iff_of_false (by simp) fun first => ?_
    cases first
  | cons emission rest ih =>
    obtain ⟨slot, front, rfl, marked, onward⟩ := List.map_eq_cons_iff.1 marks
    cases slot with
    | error listing =>
      have offence : Offence graph earlier emission (.unknownNode listing) := .unknown_of_mark marked.symm
      rw [List.cons_append, settle, Except.error.injEq, firstOffence_cons_of_offence offence]
    | ok state =>
      rw [List.cons_append, settle_state_eq_error_iff]
      by_cases old : state.id ∈ seen
      · rw [firstOffence_cons_of_offence (before.offence whole marked.symm old)]
        simp [old]
      · have clear := before.clear marked.symm old
        have named : state.id = emission.name.text := emission.mark_eq_ok marked.symm
        rw [firstOffence_cons_of_clear clear, ← ih (before.concat clear named) onward (by rw [← whole]; simp)]
        simp [old]

end

theorem FirstOffence.exists_offence {earlier rest : List Emission} {error : CompileError}
    (first : FirstOffence graph earlier rest error) :
    ∃ before emission, Offence graph before emission error := by
  induction first with
  | here offence => exact ⟨_, _, offence⟩
  | later _ _ ih => exact ih

theorem Region.mem_emissions_node {region : Region} {listing : Listing} :
    .node listing ∈ region.emissions ↔ listing ∈ region.listings := by
  rw [listings, ← region.flatMap_numbered]
  simp only [emissions, batchEmissions, List.mem_flatMap, List.mem_append, List.mem_cons, List.mem_map,
    List.not_mem_nil, or_false, reduceCtorEq, false_or, Emission.node.injEq]
  constructor
  · rintro ⟨numbered, place, key, inBatch, same⟩
    exact ⟨key, ⟨numbered, place, inBatch⟩, same⟩
  · rintro ⟨key, ⟨numbered, place, inBatch⟩, same⟩
    exact ⟨numbered, place, key, inBatch, same⟩

namespace Partition

/-- A node is emitted exactly where it is listed. -/
theorem mem_emissions_node {listing : Listing} :
    .node listing ∈ partition.emissions ↔ listing ∈ partition.listings := by
  simp [emissions, listings, Region.mem_emissions_node, Chain.emissions]

section

variable (selfKeyed : graph.SelfKeyed)
include selfKeyed

theorem emit_eq_error_iff {error : CompileError} :
    partition.emit graph = .error error ↔ FirstOffence graph [] partition.emissions error := by
  have settled : settle [] (partition.draft graph) = .error error ↔
      FirstOffence graph [] partition.emissions error :=
    settle_eq_error_iff ⟨fun _ => Nat.zero_le 1, by simp⟩ (selfKeyed.marks_draft partition) rfl
  rw [← settled, emit]
  cases settle [] (partition.draft graph) <;> simp [Except.map]

/-- A draft gives a machine when every listing names a node and the names of its states are distinct. -/
theorem emit_eq_ok_iff {machine : Machine} :
    partition.emit graph = .ok machine ↔ (∀ key ∈ partition.listed, graph.contains key = true) ∧
      partition.names.Nodup ∧ machine = partition.machine graph := by
  rw [emit_eq_ok_iff_nodup_ids, selfKeyed.ids_machine, List.nodup_map_iff StateId.text_injective]

theorem produce_eq_emit : partition.produce settings graph = partition.emit graph := by
  cases emitted : partition.emit graph with
  | error error => simp only [produce, emitted]
  | ok machine =>
    obtain ⟨_, apart, rfl⟩ := (emit_eq_ok_iff selfKeyed).1 emitted
    have audited : (partition.machine graph).audit.hasErrors = false := by
      rw [Machine.audit, issues_machine selfKeyed apart]
      rfl
    simp [produce, emitted, Machine.vet, audited]

theorem emit_fails_iff :
    (∃ error, partition.emit graph = .error error) ↔
      (∃ key ∈ partition.listed, graph.contains key = false) ∨ (∃ key, 1 < partition.listed.count key) ∨
        ∃ left right, [left, right].Sublist partition.regions ∧ left.batches ≠ [] ∧ right.batches ≠ [] ∧
          left.id = right.id := by
  have succeeds : (∃ error, partition.emit graph = .error error) ↔
      ¬ ((∀ key ∈ partition.listed, graph.contains key = true) ∧ partition.names.Nodup) := by
    cases emitted : partition.emit graph with
    | error error =>
      have fails : ∀ machine, partition.emit graph ≠ .ok machine := by simp [emitted]
      simp only [Except.error.injEq, exists_eq', true_iff]
      exact fun fine => fails _ ((emit_eq_ok_iff selfKeyed).2 ⟨fine.1, fine.2, rfl⟩)
    | ok machine =>
      obtain ⟨known, apart, _⟩ := (emit_eq_ok_iff selfKeyed).1 emitted
      exact iff_of_false (by simp) (not_not_intro ⟨known, apart⟩)
  have once : partition.listed.Nodup ↔ ¬ ∃ key, 1 < partition.listed.count key := by
    simp [List.nodup_iff_count_le_one]
  have regions : ((partition.regions.filter (·.batches ≠ [])).map Region.id).Nodup ↔
      ¬ ∃ left right, [left, right].Sublist partition.regions ∧ left.batches ≠ [] ∧ right.batches ≠ [] ∧
        left.id = right.id := by
    rw [List.Nodup, List.pairwise_map, List.pairwise_filter, List.pairwise_iff_forall_sublist]
    simp only [decide_eq_true_eq]
    grind
  rw [succeeds, nodup_names_iff, once, regions]
  simp only [not_and_or, not_not, not_forall, Bool.not_eq_true]
  grind

end

/-- Of a graph whose nodes are stored under their own ids, a partition is compiled unless it lists an
unknown node, lists a node twice, or begins two regions under one id. The error is that of the first
offence in the order of emission, and whether the machine is audited makes no difference. -/
theorem compile_fails_at_firstOffence (selfKeyed : graph.SelfKeyed)
    (unreviewed : settings.reviewPartition = false) :
    ((∃ error, partition.compile settings graph = .error error) ↔
      (∃ key ∈ partition.listed, graph.contains key = false) ∨ (∃ key, 1 < partition.listed.count key) ∨
        ∃ left right, [left, right].Sublist partition.regions ∧ left.batches ≠ [] ∧ right.batches ≠ [] ∧
          left.id = right.id) ∧
    (∀ error, partition.compile settings graph = .error error ↔
      FirstOffence graph [] partition.emissions error) ∧
    (∀ name : StateId, partition.compile settings graph = .error (.repeatedState name.text) →
      (∃ key, name = .task key) ∨ ∃ region, name = .batchStart region 1) ∧
    (∀ report, partition.compile settings graph ≠ .error (.invalidMachine report)) ∧
    ∀ auditing, partition.compile { settings with auditMachine := auditing } graph =
      partition.compile settings graph := by
  have emits : ∀ auditing, partition.compile { settings with auditMachine := auditing } graph =
      partition.emit graph := by
    intro auditing
    simp [compile, unreviewed, produce_eq_emit selfKeyed]
  have compiles : partition.compile settings graph = partition.emit graph := emits settings.auditMachine
  rw [compiles]
  refine ⟨emit_fails_iff selfKeyed, fun error => emit_eq_error_iff selfKeyed, fun name failed => ?_,
    fun report failed => ?_, emits⟩
  · obtain ⟨_, _, offence⟩ := ((emit_eq_error_iff selfKeyed).1 failed).exists_offence
    generalize error : CompileError.repeatedState name.text = found at offence
    cases offence with
    | unknown => cases error
    | @repeatedNode listing =>
      exact .inl ⟨listing.node, StateId.text_injective (CompileError.repeatedState.inj error)⟩
    | @repeatedRegion region =>
      exact .inr ⟨region, StateId.text_injective (CompileError.repeatedState.inj error)⟩
  · obtain ⟨_, _, offence⟩ := ((emit_eq_error_iff selfKeyed).1 failed).exists_offence
    cases offence

/-- Everything at fault at once: the second region repeats the first, whose first batch it takes a node
of, and a node nobody knows comes last. -/
def tangled : Partition where
  chains := [{ id := "head", path := ["a"] }]
  regions := [{ id := "body", batches := [["b"], []] }, { id := "body", batches := [["b"], ["e"]] }]

theorem compile_tangled :
    diamondGraph.SelfKeyed ∧
      tangled.compile { reviewPartition := false } diamondGraph =
        .error (.repeatedState (StateId.batchStart "body" 1).text) ∧
      FirstOffence diamondGraph [] tangled.emissions (.repeatedState (StateId.batchStart "body" 1).text) := by
  have selfKeyed := consistent_diamond.selfKeyed
  have failed : tangled.compile { reviewPartition := false } diamondGraph =
      .error (.repeatedState (StateId.batchStart "body" 1).text) := by decide +kernel
  exact ⟨selfKeyed, failed, ((compile_fails_at_firstOffence selfKeyed rfl).2.1 _).1 failed⟩

end Partition

end Orchestration
