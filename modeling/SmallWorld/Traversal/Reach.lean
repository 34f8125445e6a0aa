import SmallWorld.Traversal.Layer

/-!
# Reachable points

The points that can be reached from a start along the runs of one level.
Points are taken from a queue, and the neighbours not met before are put at
its end.  A neighbour that is no point is a fault.
-/

namespace SmallWorld

/-- The neighbours that have not been met, and all points met with them. -/
def discover (size : Nat) :
    List PointId → Std.HashSet PointId →
      Except Fault (List PointId × Std.HashSet PointId)
  | [], met => .ok ([], met)
  | id :: rest, met =>
      if met.contains id then
        discover size rest met
      else if id < size then
        match discover size rest (met.insert id) with
        | .error fault => .error fault
        | .ok (fresh, met) => .ok (id :: fresh, met)
      else
        .error .outOfBounds

/-- Each discovery is one point fewer that is not met. -/
private theorem unseenCount_discover {size : Nat} {neighbors : List PointId}
    {met met' : Std.HashSet PointId} {fresh : List PointId}
    (discovered : discover size neighbors met = .ok (fresh, met')) :
    unseenCount size met' + fresh.length ≤ unseenCount size met := by
  induction neighbors generalizing met fresh with
  | nil =>
      cases discovered
      exact Nat.le_refl _
  | cons id rest inductionHypothesis =>
      unfold discover at discovered
      cases known : met.contains id with
      | true =>
          rw [known] at discovered
          exact inductionHypothesis discovered
      | false =>
          rw [known] at discovered
          simp only [Bool.false_eq_true, if_false] at discovered
          split at discovered
          · next inside =>
              split at discovered
              · cases discovered
              · next further =>
                  cases discovered
                  have bound := inductionHypothesis further
                  have fewer := unseenCount_insert_lt known inside
                  simp only [List.length_cons]
                  omega
          · cases discovered

namespace Links

/-- Take points from the queue until it is empty, and return all points
met. -/
def flood (links : Links) (level : Nat) (queue : List PointId)
    (met : Std.HashSet PointId) : Except Fault (Std.HashSet PointId) :=
  match queue with
  | [] => .ok met
  | id :: queue =>
      match links.neighbors id level with
      | .error fault => .error fault
      | .ok neighbors =>
          match _ : discover links.size neighbors met with
          | .error fault => .error fault
          | .ok (fresh, met) => links.flood level (queue ++ fresh) met
termination_by unseenCount links.size met + queue.length
decreasing_by
  have bound := unseenCount_discover ‹_›
  simp only [List.length_append, List.length_cons]
  omega

def reachable (links : Links) (level : Nat) (start : PointId) :
    Except Fault (Std.HashSet PointId) :=
  links.flood level [start] ((∅ : Std.HashSet PointId).insert start)

end Links

end SmallWorld
