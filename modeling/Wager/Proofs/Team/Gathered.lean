import Wager.Proofs.Keyed
import Wager.Proofs.Ordered
import Wager.Proofs.Team.Rows

/-!
# Teams gathered by name

A directory is gathered from the curated teams and the rows behind them.  All that has one name, in
any letter case, becomes one team at the place of the first: it has the first name, the names of all
of them without repeats, and the other fields of the last.  A directory that is taken in again is
gathered into itself.
-/

namespace Wager

open Text

def firstFilled (names : List Text) : Text := (names.find? (!·.isEmpty)).getD []

theorem firstFilled_singleton (x : Text) : firstFilled [x] = x := by
  cases x <;> rfl

theorem firstFilled_append (front back : List Text) : firstFilled (front ++ back) =
    if (firstFilled front).isEmpty then firstFilled back else firstFilled front := by
  rw [firstFilled, List.find?_append]
  cases first : front.find? (!·.isEmpty) with
  | none => simp [firstFilled, first]
  | some x =>
    have filled : x.isEmpty = false := by simpa using List.find?_some first
    simp [firstFilled, first, filled]

/-- Names that are the same in lower case have it from the first one that is not empty. -/
theorem nameKey_firstFilled {names : List Text} {k : Text} (some_name : names ≠ [])
    (same : ∀ x ∈ names, nameKey x = k) : nameKey (firstFilled names) = k := by
  unfold firstFilled
  cases first : names.find? (!·.isEmpty) with
  | some x => exact same x (List.mem_of_find?_eq_some first)
  | none =>
    obtain ⟨x, hx⟩ := List.exists_mem_of_ne_nil names some_name
    have empty : x = [] := by simpa using List.find?_eq_none.mp first x hx
    rw [Option.getD_none, ← empty]
    exact same x hx

namespace Team

variable {α : Type}

abbrev key (p : Team α) : Text := nameKey p.name

def namesakes (sources : List (Team α)) (k : Text) : List (Team α) := sources.filter (·.key == k)

theorem key_of_mem_namesakes {sources : List (Team α)} {k : Text} :
    ∀ s ∈ namesakes sources k, s.key = k := by
  intro s hs
  simpa using (List.mem_filter.mp hs).2

theorem namesakes_append (front back : List (Team α)) (k : Text) :
    namesakes (front ++ back) k = namesakes front k ++ namesakes back k :=
  List.filter_append _ _

theorem namesakes_eq_nil {sources : List (Team α)} {k : Text} (new : k ∉ sources.map key) :
    namesakes sources k = [] := by
  simpa [namesakes, List.filter_eq_nil_iff] using new

theorem namesakes_eq_singleton {sources : List (Team α)} (distinct : (sources.map key).Nodup)
    {p : Team α} (hp : p ∈ sources) : namesakes sources p.key = [p] :=
  Keyed.filter_key_eq distinct hp

def spellings (p : Team α) : List Text := p.name :: p.abbreviations

def gathered? (sources : List (Team α)) : Option (Team α) :=
  sources.getLast?.map fun last => { last with
    name := firstFilled (sources.map (·.name))
    abbreviations := distinctNames (sources.flatMap spellings) }

theorem gathered?_eq_some {sources : List (Team α)} {p : Team α} (h : gathered? sources = some p) :
    sources ≠ [] ∧ p.name = firstFilled (sources.map (·.name)) ∧
      p.abbreviations = distinctNames (sources.flatMap spellings) := by
  obtain ⟨last, found, rfl⟩ := Option.map_eq_some_iff.mp h
  refine ⟨?_, rfl, rfl⟩
  rintro rfl
  cases found

theorem key_of_gathered? {sources : List (Team α)} {k : Text} {p : Team α}
    (same : ∀ s ∈ sources, s.key = k) (h : gathered? sources = some p) :
    p.key = k := by
  obtain ⟨nonempty, name, -⟩ := gathered?_eq_some h
  rw [key, name]
  apply nameKey_firstFilled (by simpa using nonempty)
  simpa using same

theorem aliases_of_gathered? {sources : List (Team α)} {k : Text} {p : Team α}
    (same : ∀ s ∈ sources, s.key = k) (h : gathered? sources = some p) :
    p.aliases = p.abbreviations := by
  have kept := key_of_gathered? same h
  obtain ⟨nonempty, name, names⟩ := gathered?_eq_some h
  obtain ⟨s, rest, rfl⟩ := List.exists_cons_of_ne_nil nonempty
  have first : s.key = p.key := by rw [kept, same s List.mem_cons_self]
  have spelled : trim p.name = trim s.name := by
    by_cases blank : trim s.name = []
    · rwa [blank, ← nameKey_eq_nil_iff, ← key, ← first, key, nameKey_eq_nil_iff]
    · have filled : s.name ≠ [] := by
        intro empty
        exact blank (by rw [empty]; rfl)
      rw [name, List.map_cons, firstFilled, List.find?_cons_of_pos (by simpa using filled)]
      rfl
  let others := s.abbreviations ++ rest.flatMap spellings
  have listed : (s :: rest).flatMap spellings = [s.name] ++ others := rfl
  calc p.aliases = distinctNames ([p.name] ++ p.abbreviations) := rfl
    _ = distinctNames ([p.name] ++ ([s.name] ++ others)) := by
      rw [names, distinctNames_append_distinctNames, listed]
    _ = distinctNames ([p.name] ++ others) :=
      distinctNames_append_of_known (by simpa using first.symm) _
    _ = distinctNames ([s.name] ++ others) := by
      simp [distinctNames, distinctNamesFrom_cons, nameKey, spelled]
    _ = p.abbreviations := by rw [names, listed]

/-- Whether two teams have the same identifier, samples and rating. -/
def SameFigures (p q : Team α) : Prop :=
  p.id = q.id ∧ p.totalSamples = q.totalSamples ∧ p.avgRep = q.avgRep

theorem sameFigures_of_gathered? {sources : List (Team α)} {p : Team α}
    (h : gathered? sources = some p) :
    ∃ last, sources.getLast? = some last ∧ SameFigures p last := by
  obtain ⟨last, found, rfl⟩ := Option.map_eq_some_iff.mp h
  exact ⟨last, found, rfl, rfl, rfl⟩

theorem gathered?_concat {sources : List (Team α)} {p : Team α}
    (same : ∀ s ∈ sources, s.key = p.key) :
    gathered? (sources ++ [p]) = some
      (match gathered? sources with
      | none => p.alone
      | some known => p.mergeInto known) := by
  cases before : gathered? sources with
  | none =>
    obtain rfl : sources = [] := by simpa [gathered?] using before
    simp [gathered?, firstFilled_singleton, alone, spellings]
  | some known =>
    have kept := key_of_gathered? same before
    have settled := aliases_of_gathered? same before
    obtain ⟨nonempty, name, names⟩ := gathered?_eq_some before
    have listed : distinctNames ([known.name, p.name] ++ known.abbreviations ++ p.abbreviations) =
        distinctNames (sources.flatMap spellings ++ ([p.name] ++ p.abbreviations)) := by
      obtain ⟨s, hs⟩ := List.exists_mem_of_ne_nil sources nonempty
      have known_name : ∃ y ∈ sources.flatMap spellings, nameKey y = nameKey p.name :=
        ⟨s.name, List.mem_flatMap.mpr ⟨s, hs, List.mem_cons_self⟩, same s hs⟩
      calc distinctNames ([known.name, p.name] ++ known.abbreviations ++ p.abbreviations)
          = distinctNames ([known.name] ++
              ([p.name] ++ (known.abbreviations ++ p.abbreviations))) := by simp
        _ = distinctNames ([known.name] ++ (known.abbreviations ++ p.abbreviations)) :=
            distinctNames_append_of_known (by simpa using kept) _
        _ = distinctNames (known.aliases ++ p.abbreviations) := by
            rw [aliases, distinctNames_distinctNames_append]
            simp
        _ = distinctNames (sources.flatMap spellings ++ p.abbreviations) := by
            rw [settled, names, distinctNames_distinctNames_append]
        _ = distinctNames (sources.flatMap spellings ++ ([p.name] ++ p.abbreviations)) :=
            (distinctNames_append_of_known (by simpa using known_name) _).symm
    have first : firstFilled ((sources ++ [p]).map (·.name)) =
        if known.name.isEmpty then p.name else known.name := by
      simp [firstFilled_append, firstFilled_singleton, name]
    have all : (sources ++ [p]).flatMap spellings =
        sources.flatMap spellings ++ ([p.name] ++ p.abbreviations) := by simp [spellings]
    rw [gathered?, List.getLast?_concat, Option.map_some, first, all, ← listed]
    rfl

/-- What was gathered stands for its last sources: gathering it with the others again changes
nothing. -/
theorem gathered?_again {front back : List (Team α)} {k : Text} {p : Team α}
    (same : ∀ s ∈ front ++ back, s.key = k) (h : gathered? (front ++ back) = some p) :
    gathered? (front ++ [p]) = some p := by
  have settled := aliases_of_gathered? same h
  obtain ⟨-, name, names⟩ := gathered?_eq_some h
  have first : firstFilled ((front ++ [p]).map (·.name)) = p.name := by
    simp only [List.map_append, List.map_singleton, firstFilled_append,
      firstFilled_singleton] at name ⊢
    split
    · rfl
    next filled => rw [name, if_neg filled]
  have listed : distinctNames ((front ++ [p]).flatMap spellings) = p.abbreviations := by
    let fronts := front.flatMap spellings
    let backs := back.flatMap spellings
    calc distinctNames ((front ++ [p]).flatMap spellings)
        = distinctNames (fronts ++ distinctNames (p.name :: p.abbreviations)) := by
          rw [distinctNames_append_distinctNames]
          simp [fronts, spellings]
      _ = distinctNames (fronts ++ distinctNames (fronts ++ backs)) := by
          rw [← aliases, settled, names]
          simp [fronts, backs]
      _ = distinctNames (fronts ++ (fronts ++ backs)) := distinctNames_append_distinctNames _ _
      _ = distinctNames (fronts ++ backs) :=
          distinctNames_append_of_known (fun x hx => ⟨x, hx, rfl⟩) _
      _ = p.abbreviations := by
          rw [names]
          simp [fronts, backs]
  rw [gathered?, List.getLast?_concat, Option.map_some, first, listed]

end Team

namespace Directory

open Team

section

variable {α : Type}

theorem absorb_eq_update (teams : KeyedTeams α) (p : Team α) : absorb teams p =
    Keyed.update (·.1) p.key (fun e => (e.1, p.mergeInto e.2)) (p.key, p.alone) teams := by
  have held : (teams.lookup p.key).isSome = teams.any (·.1 == p.key) := by
    rw [Bool.eq_iff_iff, List.lookup_isSome_iff, List.any_eq_true]
    simp only [beq_iff_eq]
    exact exists_congr fun e => and_congr_right fun _ => eq_comm
  unfold absorb Keyed.update
  rw [← held]
  dsimp only
  cases teams.lookup p.key with
  | none => rfl
  | some known => rfl

theorem map_key_absorb (teams : KeyedTeams α) (p : Team α) : (absorb teams p).map (·.1) =
    if p.key ∈ teams.map (·.1) then teams.map (·.1) else teams.map (·.1) ++ [p.key] := by
  rw [absorb_eq_update]
  exact Keyed.map_key_update (fun _ => rfl) rfl

/-- Whether teams are what is gathered from some sources under their names, in order of first
appearance. -/
structure Gathers (sources : List (Team α)) (teams : KeyedTeams α) : Prop where
  keys : teams.map (·.1) = (sources.map key).eraseDups
  gathered : ∀ e ∈ teams, gathered? (namesakes sources e.1) = some e.2

theorem gathers_nil : Gathers ([] : List (Team α)) [] :=
  ⟨rfl, fun _ he => nomatch he⟩

namespace Gathers

variable {sources : List (Team α)} {teams : KeyedTeams α}

theorem absorb (h : Gathers sources teams) (p : Team α) :
    Gathers (sources ++ [p]) (Directory.absorb teams p) := by
  have member : p.key ∈ teams.map (·.1) ↔ p.key ∈ sources.map key := by
    rw [h.keys, List.mem_eraseDups]
  -- Only what is gathered under the name of the new team changes.
  have others {k : Text} (other : k ≠ p.key) :
      namesakes (sources ++ [p]) k = namesakes sources k := by
    have apart : k ∉ [p].map key := by simpa using other
    rw [namesakes_append, namesakes_eq_nil apart, List.append_nil]
  have own : gathered? (namesakes (sources ++ [p]) p.key) = some
      (match gathered? (namesakes sources p.key) with
      | none => p.alone
      | some known => p.mergeInto known) := by
    have alone : namesakes [p] p.key = [p] := by simp [namesakes]
    rw [namesakes_append, alone]
    exact gathered?_concat key_of_mem_namesakes
  constructor
  case keys =>
    rw [map_key_absorb, List.map_append, List.map_singleton, eraseDups_concat, ← h.keys]
    simp only [member]
  case gathered =>
    intro e he
    rw [absorb_eq_update] at he
    by_cases old : p.key ∈ teams.map (·.1)
    · rw [Keyed.update_of_mem old] at he
      obtain ⟨x, hx, rfl⟩ := List.mem_map.mp he
      by_cases same : x.1 = p.key
      · have known := h.gathered x hx
        rw [same] at known
        rw [if_pos (by simpa using same), same, own, known]
      · simpa [same, others same] using h.gathered x hx
    · rw [Keyed.update_of_notMem old] at he
      rcases List.mem_append.mp he with he | he
      · have other : e.1 ≠ p.key := fun same => old (same ▸ List.mem_map_of_mem he)
        rw [others other]
        exact h.gathered e he
      · obtain rfl := List.mem_singleton.mp he
        rw [own, namesakes_eq_nil (mt member.mpr old)]
        rfl

theorem foldl (h : Gathers sources teams) (rows : List (Team α)) :
    Gathers (sources ++ rows) (rows.foldl Directory.absorb teams) := by
  induction rows generalizing sources teams with
  | nil => simpa using h
  | cons p rows ih => simpa using ih (h.absorb p)

theorem eq (h : Gathers sources teams) : teams =
    ((sources.map key).eraseDups).filterMap fun k =>
      (gathered? (namesakes sources k)).map fun p => (k, p) := by
  have each : ∀ e ∈ teams,
      (gathered? (namesakes sources e.1)).map (fun p => (e.1, p)) = some e := by
    intro e he
    rw [h.gathered e he]
    rfl
  rw [← h.keys, List.filterMap_map]
  exact ((List.filterMap_congr each).trans List.filterMap_some).symm

theorem key_eq (h : Gathers sources teams) {e : Text × Team α} (he : e ∈ teams) : e.2.key = e.1 :=
  key_of_gathered? key_of_mem_namesakes (h.gathered e he)

theorem map_key (h : Gathers sources teams) :
    (teams.map (·.2)).map key = (sources.map key).eraseDups := by
  rw [← h.keys, List.map_map]
  exact List.map_congr_left fun e he => h.key_eq he

theorem gathered_of_mem (h : Gathers sources teams) {p : Team α} (hp : p ∈ teams.map (·.2)) :
    gathered? (namesakes sources p.key) = some p := by
  obtain ⟨e, he, rfl⟩ := List.mem_map.mp hp
  rw [h.key_eq he]
  exact h.gathered e he

end Gathers

/-- Teams of different names that are as they are gathered are appended as they are. -/
theorem foldl_absorb_of_fresh {teams : KeyedTeams α} {rows : List (Team α)}
    (distinct : (teams.map (·.1) ++ rows.map key).Nodup) (settled : ∀ p ∈ rows, p.alone = p) :
    rows.foldl Directory.absorb teams = teams ++ rows.map fun p => (p.key, p) := by
  induction rows generalizing teams with
  | nil => simp
  | cons p rows ih =>
    obtain ⟨own, others⟩ := List.forall_mem_cons.mp settled
    have fresh : p.key ∉ teams.map (·.1) := by
      intro old
      have apart := (List.nodup_append.mp distinct).2.2
      exact apart _ old _ List.mem_cons_self rfl
    rw [List.foldl_cons, absorb_eq_update, Keyed.update_of_notMem fresh, own, ih _ others]
    · simp
    · simpa using distinct

end

variable {α : Type} [Scalar α]

theorem map_key_library : (library (α := α)).map key = curatedKeys := by
  rw [library, List.map_map]
  rfl

theorem nodup_library : ((library (α := α)).map key).Nodup := by
  rw [map_key_library]
  exact nodup_curatedKeys

theorem alone_of_mem_library {c : Team α} (hc : c ∈ library) : c.alone = c := by
  obtain ⟨t, -, rfl⟩ := List.mem_map.mp hc
  have listed : distinctNames ([t.name] ++ distinctNames ([t.name] ++ t.aliases)) =
      distinctNames ([t.name] ++ t.aliases) := by
    rw [distinctNames_append_distinctNames]
    exact distinctNames_append_of_known (fun x hx => ⟨x, hx, rfl⟩) _
  simpa [alone, ofLibrary] using listed

theorem gathers_library : Gathers (library (α := α)) (keyed library) := by
  have taken : (library (α := α)).foldl absorb [] = [] ++ keyed library :=
    foldl_absorb_of_fresh nodup_library fun c hc => alone_of_mem_library hc
  have all := (gathers_nil (α := α)).foldl library
  rwa [taken] at all

theorem gathers_build [Coercion α] {rows : List (ProviderRow α)} {teams : List (Team α)}
    (built : build rows = .ok teams) :
    ∃ entries, Gathers (library ++ accepted rows) entries ∧ teams = entries.map (·.2) :=
  ⟨_, gathers_library.foldl (accepted rows), build_eq built⟩

theorem build_teams [Coercion α] (teams : List (Team α)) : build (teams.map ProviderRow.team) =
    .ok ((teams.foldl absorb (keyed library)).map (·.2)) := by
  have taken : (teams.map ProviderRow.team).foldlM absorbRow (keyed library) =
      (.ok (teams.foldl absorb (keyed library)) : Except RowError _) := by
    rw [List.foldlM_map]
    exact List.foldlM_pure
  rw [build, taken]
  rfl

theorem eraseDups_library_append (rows : List (Team α)) :
    ((library ++ rows).map key).eraseDups =
      curatedKeys ++ ((rows.map key).filter (· ∉ curatedKeys)).eraseDups := by
  have new : (rows.map key).removeAll curatedKeys = (rows.map key).filter (· ∉ curatedKeys) :=
    List.filter_congr fun x _ => by rw [List.elem_eq_mem, decide_not]
  rw [List.map_append, map_key_library, List.eraseDups_append,
    eraseDups_of_nodup nodup_curatedKeys, new]

theorem namesakes_library_append {c : Team α} (hc : c ∈ library) (rows : List (Team α)) :
    namesakes (library ++ rows) c.key = c :: namesakes rows c.key := by
  rw [namesakes_append, namesakes_eq_singleton nodup_library hc, List.singleton_append]

/-- The names of a directory are different in lower case: those of the curated teams in their order
and then each new one where a row first has it.  A curated team keeps its name; its aliases are its
own and then those of the rows that name it, each in its first spelling, and its figures are those
of the last such row.  A new team is made of its rows alone. -/
theorem build_gathers [Coercion α] {rows : List (ProviderRow α)} {teams : List (Team α)}
    (built : build rows = .ok teams) :
    (teams.map key).Nodup ∧
    teams.map key =
      curatedKeys ++ (((accepted rows).map key).filter (· ∉ curatedKeys)).eraseDups ∧
    ∀ p ∈ teams, p.abbreviations = p.aliases ∧
      (∀ c ∈ library, p.key = c.key → p.name = c.name ∧
        p.aliases = firstSpellings
          (c.aliases ++ (namesakes (accepted rows) p.key).flatMap spellings) ∧
        p.SameFigures ((namesakes (accepted rows) p.key).getLast?.getD c)) ∧
      (p.key ∉ curatedKeys →
        p.name = firstFilled ((namesakes (accepted rows) p.key).map (·.name)) ∧
        p.aliases = firstSpellings ((namesakes (accepted rows) p.key).flatMap spellings) ∧
        ∃ last, (namesakes (accepted rows) p.key).getLast? = some last ∧ p.SameFigures last) := by
  obtain ⟨entries, gathers, rfl⟩ := gathers_build built
  refine ⟨gathers.map_key ▸ nodup_eraseDups _,
    gathers.map_key.trans (eraseDups_library_append _), fun p hp => ?_⟩
  have made := gathers.gathered_of_mem hp
  have settled := aliases_of_gathered? key_of_mem_namesakes made
  refine ⟨settled.symm, fun c hc same => ?_, fun new => ?_⟩
  · rw [same, namesakes_library_append hc] at made
    obtain ⟨-, name, names⟩ := gathered?_eq_some made
    obtain ⟨last, found, figures⟩ := sameFigures_of_gathered? made
    have filled : c.name ≠ [] := by
      intro empty
      exact library_named c hc (by rw [empty]; rfl)
    rw [same]
    refine ⟨?_, ?_, ?_⟩
    · rw [name, List.map_cons, firstFilled, List.find?_cons_of_pos (by simpa using filled)]
      rfl
    · rw [settled, names, List.flatMap_cons, ← distinctNames_distinctNames_append,
        distinctNames_eq_firstSpellings]
      rfl
    · rw [List.getLast?_cons] at found
      cases found
      exact figures
  · rw [← map_key_library (α := α)] at new
    rw [namesakes_append, namesakes_eq_nil new, List.nil_append] at made
    obtain ⟨-, name, names⟩ := gathered?_eq_some made
    refine ⟨name, ?_, sameFigures_of_gathered? made⟩
    rw [settled, names, distinctNames_eq_firstSpellings]

/-- A new team in two rows, a row for a curated team, and one without a name. -/
def wandererRows : List (ProviderRow ℚ) := [
  .loose (.object [("teamId".toList, .text "w1".toList),
    ("teamName".toList, .text "Wanderers".toList),
    ("abbreviations".toList, .list [.text "wdr".toList])]),
  .loose (.object [("teamId".toList, .text "w1".toList)]),
  .team ⟨"gunners".toList, "阿森纳".toList, ["Gunners".toList, "COYG".toList], 7, 0.5⟩,
  .loose (.object [("teamId".toList, .text "w2".toList),
    ("teamName".toList, .text " WANDERERS ".toList),
    ("abbreviations".toList, .list [.text "Wdr".toList, .text "wan".toList])])]

def wanderers : List (Team ℚ) :=
  ((accepted wandererRows).foldl absorb (keyed library)).map (·.2)

theorem build_wandererRows : build wandererRows = .ok wanderers := by
  rw [build, foldlM_absorbRow_eq]
  rfl

theorem wanderers_notMem : "wanderers".toList ∉ curatedKeys := by
  intro listed
  obtain ⟨t, ht, same⟩ := List.mem_map.mp listed
  have spelled := LibraryTeam.wellSpelled ht
  have short : (nameKey t.name).length ≤ 6 := by
    rw [nameKey, spelled.trimmed t.name List.mem_cons_self,
      length_lower (spelled.undotted t.name List.mem_cons_self)]
    exact spelled.short
  rw [same] at short
  exact absurd short (by decide)

theorem build_gathers_wanderers : build wandererRows = .ok wanderers ∧
    wanderers.map key = curatedKeys ++ ["wanderers".toList] ∧
    ∀ p ∈ wanderers, p.key = "wanderers".toList → p.name = "Wanderers".toList ∧
      p.id = "w2".toList ∧ p.aliases = ["Wanderers".toList, "wdr".toList, "wan".toList] := by
  obtain ⟨-, keys, made⟩ := build_gathers build_wandererRows
  have rows : (accepted wandererRows).map key =
      ["wanderers".toList, "阿森纳".toList, "wanderers".toList] := by decide
  have curated : "阿森纳".toList ∈ curatedKeys := by decide
  refine ⟨build_wandererRows, ?_, fun p hp name => ?_⟩
  · let fresh (x : Text) : Bool := decide (x ∉ curatedKeys)
    have new : fresh "wanderers".toList = true := decide_eq_true wanderers_notMem
    have old : ¬fresh "阿森纳".toList = true := fun absent => of_decide_eq_true absent curated
    rw [keys, rows, List.filter_cons_of_pos (p := fresh) new,
      List.filter_cons_of_neg (p := fresh) old, List.filter_cons_of_pos (p := fresh) new]
    rfl
  · obtain ⟨-, -, fresh⟩ := made p hp
    rw [name] at fresh
    obtain ⟨first, aliases, last, found, id, -⟩ := fresh wanderers_notMem
    have ids : ((namesakes (accepted wandererRows) "wanderers".toList).getLast?).map (·.id) =
        some "w2".toList := by decide
    rw [found] at ids
    exact ⟨first, id.trans (Option.some.inj ids), aliases⟩

/-- A directory that is taken in as rows is gathered into itself. -/
theorem build_build [Coercion α] {rows : List (ProviderRow α)} {teams : List (Team α)}
    (built : build rows = .ok teams) : build (teams.map ProviderRow.team) = .ok teams := by
  obtain ⟨entries, gathers, rfl⟩ := gathers_build built
  let teams := entries.map (·.2)
  have again : Gathers (library ++ teams) (teams.foldl absorb (keyed library)) :=
    gathers_library.foldl teams
  have distinct : (teams.map key).Nodup := gathers.map_key ▸ nodup_eraseDups _
  have keys : ((library ++ teams).map key).eraseDups =
      ((library ++ accepted rows).map key).eraseDups := by
    rw [← gathers.map_key, List.map_append]
    apply eraseDups_append_of_prefix distinct
    rw [gathers.map_key, eraseDups_library_append, map_key_library]
    exact List.prefix_append _ _
  suffices same : teams.foldl absorb (keyed library) = entries by
    rw [build_teams, same]
  refine again.eq.trans (Eq.trans ?_ gathers.eq.symm)
  rw [keys, ← gathers.map_key]
  apply List.filterMap_congr
  intro k hk
  obtain ⟨p, hp, rfl⟩ := List.mem_map.mp hk
  have made := gathers.gathered_of_mem hp
  have one_name : ∀ s ∈ namesakes (library ++ accepted rows) p.key, s.key = p.key :=
    key_of_mem_namesakes
  rw [namesakes_append] at made one_name
  rw [namesakes_append, namesakes_append, namesakes_eq_singleton distinct hp,
    gathered?_again one_name made, made]

theorem build_build_wanderers : build wandererRows = .ok wanderers ∧
    build (wanderers.map ProviderRow.team) = .ok wanderers :=
  ⟨build_wandererRows, build_build build_wandererRows⟩

end Directory

end Wager
