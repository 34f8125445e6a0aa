import SmallWorld.Cloud
import SmallWorld.Proofs.Distance

/-!
# Clouds of accepted vectors

In a cloud of accepted vectors every point has a distance to every other
point and to every accepted query.
-/

namespace SmallWorld.Cloud

structure IsSound (cloud : Cloud) : Prop where
  dimension_pos : 1 ≤ cloud.dimension
  machine : cloud.dimension < UInt64.size
  acceptable : ∀ vector ∈ cloud.vectors,
    Acceptable cloud.dimension vector

def reach (cloud : Cloud) (query : Coordinates) (id : PointId) : Scalar :=
  distance (cloud.vectors.getD id []) query

def apart (cloud : Cloud) (first second : PointId) : Scalar :=
  distance (cloud.vectors.getD first []) (cloud.vectors.getD second [])

variable {cloud : Cloud} {query : Coordinates} {id first second : PointId}

private theorem getElem?_eq (inside : id < cloud.size) :
    cloud.vectors[id]? = some (cloud.vectors.getD id []) := by
  rw [Array.getD_eq_getD_getElem?, Array.getElem?_eq_getElem inside]
  rfl

theorem vector_eq (inside : id < cloud.size) :
    cloud.vector id = .ok (cloud.vectors.getD id []) := by
  simp only [Cloud.vector, getElem?_eq inside]

namespace IsSound

theorem acceptable_getD (sound : cloud.IsSound) (inside : id < cloud.size) :
    Acceptable cloud.dimension (cloud.vectors.getD id []) :=
  sound.acceptable _ (Array.mem_of_getElem? (getElem?_eq inside))

theorem distanceTo_eq (sound : cloud.IsSound)
    (acceptable : Acceptable cloud.dimension query)
    (inside : id < cloud.size) :
    cloud.distanceTo id query = .ok (cloud.reach query id) := by
  simp only [distanceTo, vector_eq inside, bind, Except.bind]
  exact (sound.acceptable_getD inside).finiteDistance_eq sound.dimension_pos
    sound.machine acceptable

theorem distanceBetween_eq (sound : cloud.IsSound)
    (firstInside : first < cloud.size) (secondInside : second < cloud.size) :
    cloud.distanceBetween first second = .ok (cloud.apart first second) := by
  simp only [distanceBetween, vector_eq firstInside, vector_eq secondInside,
    bind, Except.bind]
  exact (sound.acceptable_getD firstInside).finiteDistance_eq
    sound.dimension_pos sound.machine (sound.acceptable_getD secondInside)

theorem reach_magnitude (sound : cloud.IsSound)
    (acceptable : Acceptable cloud.dimension query)
    (inside : id < cloud.size) :
    ∃ number, (cloud.reach query id).Magnitude number :=
  (sound.acceptable_getD inside).distance_magnitude sound.dimension_pos
    sound.machine acceptable

theorem reach_lt_iff (sound : cloud.IsSound)
    (acceptable : Acceptable cloud.dimension query)
    (firstInside : first < cloud.size) (secondInside : second < cloud.size) :
    cloud.reach query first < cloud.reach query second ↔
      (cloud.reach query first).rank < (cloud.reach query second).rank := by
  obtain ⟨_, firstMagnitude⟩ := sound.reach_magnitude acceptable firstInside
  obtain ⟨_, secondMagnitude⟩ := sound.reach_magnitude acceptable secondInside
  exact firstMagnitude.lt_iff_rank secondMagnitude

theorem reach_le_iff (sound : cloud.IsSound)
    (acceptable : Acceptable cloud.dimension query)
    (firstInside : first < cloud.size) (secondInside : second < cloud.size) :
    cloud.reach query first ≤ cloud.reach query second ↔
      (cloud.reach query first).rank ≤ (cloud.reach query second).rank := by
  obtain ⟨_, firstMagnitude⟩ := sound.reach_magnitude acceptable firstInside
  obtain ⟨_, secondMagnitude⟩ := sound.reach_magnitude acceptable secondInside
  exact firstMagnitude.le_iff_rank secondMagnitude

theorem push (sound : cloud.IsSound) {vector : Coordinates}
    (acceptable : Acceptable cloud.dimension vector) :
    { cloud with vectors := cloud.vectors.push vector }.IsSound where
  dimension_pos := sound.dimension_pos
  machine := sound.machine
  acceptable := by
    intro stored member
    rcases Array.mem_push.mp member with old | rfl
    · exact sound.acceptable stored old
    · exact acceptable

end IsSound

theorem getD_push_size (vectors : Array Coordinates) (vector : Coordinates) :
    (vectors.push vector).getD vectors.size [] = vector := by
  simp [Array.getD]

theorem getD_push_of_lt {vectors : Array Coordinates}
    (inside : id < vectors.size) (vector : Coordinates) :
    (vectors.push vector).getD id [] = vectors.getD id [] := by
  rw [Array.getD_eq_getD_getElem?, Array.getD_eq_getD_getElem?,
    Array.getElem?_push_lt inside, Array.getElem?_eq_getElem inside]

/-- A further point changes no distance of those before it. -/
theorem apart_push_of_lt (firstInside : first < cloud.size)
    (secondInside : second < cloud.size) (vector : Coordinates) :
    { cloud with vectors := cloud.vectors.push vector }.apart first second =
      cloud.apart first second := by
  unfold apart
  rw [getD_push_of_lt firstInside, getD_push_of_lt secondInside]

theorem reach_push_of_lt (inside : id < cloud.size) (vector : Coordinates) :
    { cloud with vectors := cloud.vectors.push vector }.reach query id =
      cloud.reach query id := by
  unfold reach
  rw [getD_push_of_lt inside]

/-- The distance to the point that is added last is that to its vector. -/
theorem apart_push_size (cloud : Cloud) (vector : Coordinates)
    (id : PointId) :
    { cloud with vectors := cloud.vectors.push vector }.apart id
        cloud.size =
      { cloud with vectors := cloud.vectors.push vector }.reach vector
        id := by
  unfold apart reach Cloud.size
  rw [getD_push_size]

end SmallWorld.Cloud
