import SmallWorld.Proofs.Index.Runs

/-!
# Outlines of indexes

What accepted vectors lead to is a plain function of them: an index without
slots, its outline, and the runs that its slots hold
(`Sound.run_insert`).  This is how indexes over given vectors are computed.
-/

namespace SmallWorld.Index

variable {σ : Type}

/-- The index without its slots. -/
def outline (index : Index σ) : Index σ :=
  { index with links := { index.links with slots := #[], offsets := #[] } }

variable [UniformSource σ]

def outlineWith (index : Index σ) (vector : Coordinates) : Index σ where
  settings := index.settings
  cloud := { index.cloud with vectors := index.cloud.vectors.push vector }
  links :=
    { table := index.links.table
      slots := #[]
      offsets := #[]
      levels := index.links.levels.push
        (index.links.table.draw index.source).1 }
  entryPoint :=
    if index.entryPoint = none ∨
        index.topLevel < (index.links.table.draw index.source).1 then
      some index.size
    else
      index.entryPoint
  topLevel :=
    if index.entryPoint = none then
      (index.links.table.draw index.source).1
    else
      max index.topLevel (index.links.table.draw index.source).1
  source := (index.links.table.draw index.source).2

/-- The outline and the runs after vectors have been placed. -/
def sketch (index : Index σ) (runs : Runs) :
    List Coordinates → Index σ × Runs
  | [] => (index.outline, runs)
  | vector :: rest =>
      (index.outlineWith vector).sketch
        (index.grown runs vector (index.links.table.draw index.source).1) rest

variable {index next : Index σ} {runs : Runs} {vector : Coordinates}

theorem Gains.outline_eq (gains : index.Gains vector next) :
    next.outline = index.outlineWith vector := by
  have table := gains.table_eq
  have levels := gains.levels_eq
  have cloud := gains.cloud_eq
  cases next
  cases gains
  simp_all [outline, outlineWith]

theorem sketch_outline (index : Index σ) (runs : Runs)
    (vectors : List Coordinates) :
    index.outline.sketch runs vectors = index.sketch runs vectors := by
  cases vectors with
  | nil => rfl
  | cons vector rest => rfl

/-- Accepted vectors lead to the index that is sketched. -/
theorem Sound.run_insert (sound : index.Sound runs)
    (listed : 0 < index.links.table.count) {vectors : List Coordinates}
    (acceptable : ∀ vector ∈ vectors,
      Acceptable index.cloud.dimension vector)
    (room : vectors.length ≤ greatestSize - index.size) :
    ∃ final, index.run (vectors.map Call.insert) = .ok final ∧
      final.outline = (index.sketch runs vectors).1 ∧
      final.Sound (index.sketch runs vectors).2 := by
  induction vectors generalizing index runs with
  | nil => exact ⟨index, rfl, rfl, sound⟩
  | cons vector rest inductionHypothesis =>
      rw [List.length_cons] at room
      have first := acceptable vector List.mem_cons_self
      have here : index.size < greatestSize := by omega
      obtain ⟨next, placed, gains, sound'⟩ := sound.place first here listed
      have applied : index.apply (.insert vector) = .ok next := by
        simp only [Index.apply, insert_eq_place first here, placed]
        rfl
      have size := gains.size_eq
      obtain ⟨final, ran, outlined, finalSound⟩ := inductionHypothesis sound'
        (gains.table_eq ▸ listed)
        (fun later member => by
          rw [gains.cloud_eq]
          exact acceptable later (List.mem_cons_of_mem _ member))
        (by omega)
      rw [← sketch_outline, gains.outline_eq] at outlined finalSound
      refine ⟨final, ?_, outlined, finalSound⟩
      rw [List.map_cons, run, applied, ok_bind, ran]

/-- A fresh index for points of a line, with two levels. -/
def lineStart : Index (Cycle Float) where
  settings :=
    { branching := 2, constructionWidth := 1, searchWidth := 1, seed := 0 }
  cloud := { dimension := 1, vectors := #[] }
  links := Links.empty
    { branching := 2
      probabilities := [.ofBits 0x3fe0000000000000, .ofBits 0x3fd0000000000000] }
  entryPoint := none
  topLevel := 0
  source := .ofList
    [.ofBits 0x3fe4000000000000, .ofBits 0x3fe4000000000000, .ofBits 0,
      .ofBits 0, .ofBits 0, .ofBits 0]

/-- The points 100, 0, 8, -8, 4 and -4. -/
def linePoints : List Coordinates :=
  [[.ofBits 0x42c80000], [.ofBits 0x00000000], [.ofBits 0x41000000],
    [.ofBits 0xc1000000], [.ofBits 0x40800000], [.ofBits 0xc0800000]]

theorem lineStart_isFresh : lineStart.IsFresh where
  dimension_pos := Nat.le_refl 1
  machine := by decide
  valid := by unfold Settings.Valid; decide
  branching_eq := rfl
  cloud_eq := rfl
  links_eq := rfl
  entryPoint_eq := rfl
  topLevel_eq := rfl

def lineOutline : Index (Cycle Float) :=
  (lineStart.sketch (fun _ _ => []) linePoints).1

/-- The runs of the index over the points of the line.  The second point has
dropped the first one, the entry point, on level 0. -/
def lineRuns : Runs :=
  (lineStart.sketch (fun _ _ => []) linePoints).2

example : (List.range 6).map (lineRuns · 0) =
    [[1], [4, 5, 2, 3], [1], [1], [1], [1]] := by decide +kernel

structure IsLine (index : Index (Cycle Float)) : Prop where
  reachable : index.Reachable
  outline_eq : index.outline = lineOutline
  sound : index.Sound lineRuns

theorem exists_isLine : ∃ index, IsLine index := by
  have acceptable := requireAllAcceptable_eq_ok_iff.mp
    (show requireAllAcceptable 1 linePoints = .ok () by decide +kernel)
  obtain ⟨index, ran, outlined, sound⟩ :=
    (lineStart_isFresh.sound fun _ _ => []).run_insert (by decide) acceptable
      (by decide)
  exact ⟨index, ⟨lineStart, _, lineStart_isFresh, ran⟩, outlined, sound⟩

namespace IsLine

variable {line : Index (Cycle Float)}

theorem cloud_eq (isLine : IsLine line) :
    line.cloud = { dimension := 1, vectors := linePoints.toArray } :=
  congrArg Index.cloud isLine.outline_eq

theorem size_eq (isLine : IsLine line) : line.size = 6 :=
  congrArg Cloud.size isLine.cloud_eq

theorem size_pos (isLine : IsLine line) : 0 < line.size :=
  isLine.size_eq ▸ Nat.zero_lt_succ 5

theorem room (isLine : IsLine line) : requireRoom line.size 1 = .ok () := by
  rw [isLine.size_eq]
  decide

theorem levels_eq (isLine : IsLine line) :
    line.links.levels = #[1, 1, 0, 0, 0, 0] :=
  (congrArg (fun outline => outline.links.levels) isLine.outline_eq).trans
    (by decide +kernel)

theorem count_pos (isLine : IsLine line) : 0 < line.links.table.count :=
  Nat.lt_of_lt_of_eq (by decide +kernel)
    (congrArg (fun outline => outline.links.table.count)
      isLine.outline_eq).symm

theorem entryPoint_eq (isLine : IsLine line) : line.entryPoint = some 0 :=
  (congrArg Index.entryPoint isLine.outline_eq).trans (by decide +kernel)

theorem accepted (isLine : IsLine line) (query : Coordinates)
    (accepted : requireAcceptable 1 query = .ok ()) :
    requireAcceptable line.dimension query = .ok () := by
  unfold dimension
  rwa [isLine.cloud_eq]

end IsLine

end SmallWorld.Index
