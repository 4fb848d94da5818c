import Rubify.Proofs.Grammar.Blind
import Rubify.Proofs.Tree.LongestMatch

/-!
# Readers and walks

A reader stands among the children of its node, a walk among those of the innermost node that it has
entered. Where both stand at the same place, every operation of `MonadWalk` does the same in both
(`Tracks`): it gives the same or fails with the same error, and it ends at the same place. What is
proved of such an operation on walks is therefore true of readers.

Headline:
* **`multiMatch_reader_longest`**: a reader takes the longest of several options.
-/

namespace Rubify.Reader

variable {n : Node} {S α β : Type}

/-- The walk stands where the reader does. -/
structure Stands (p : Place n) (w : Walk) : Prop where
  top : w.top = ⟨n.kind, p.left⟩
  comments : w.comments = p.comments

/-- From the same place, the reader does what the walker does. -/
def Tracks (r : Reader n α) (x : WalkT (StateM S) α) : Prop :=
  ∀ p w s, Stands p w →
    (∃ e w', r p = .error (.shape e) ∧ x.run.run w s = ((.error e, w'), s)) ∨
      ∃ a q w', r p = .ok (a, q) ∧ x.run.run w s = ((.ok a, w'), s) ∧ Stands q w'

/-! ## The operations -/

theorem tracks_pure (a : α) : Tracks (pure a : Reader n α) (pure a : WalkT (StateM S) α) :=
  fun p w _ h => Or.inr ⟨a, p, w, rfl, rfl, h⟩

theorem Tracks.bind {r : Reader n α} {x : WalkT (StateM S) α} {f : α → Reader n β}
    {g : α → WalkT (StateM S) β} (hx : Tracks r x) (hf : ∀ a, Tracks (f a) (g a)) :
    Tracks (r >>= f) (x >>= g) := by
  intro p w s h
  rw [WalkT.run_bind]
  rcases hx p w s h with ⟨e, w', hr, hrun⟩ | ⟨a, q, w', hr, hrun, h'⟩
  · exact Or.inl ⟨e, w', bind_of_error hr, by rw [hrun]⟩
  · rw [bind_of_ok hr, hrun]
    exact hf a q w' s h'

theorem tracks_parent :
    Tracks (MonadWalk.parent : Reader n String) (MonadWalk.parent : WalkT (StateM S) String) := by
  intro p w s h
  refine Or.inr ⟨n.kind, p, w, rfl, ?_, h⟩
  show ((Except.ok w.top.parent, w), s) = _
  rw [h.top]

theorem tracks_peek : Tracks (MonadWalk.peek? : Reader n (Option Node))
    (MonadWalk.peek? : WalkT (StateM S) (Option Node)) := by
  intro p w s h
  refine Or.inr ⟨Node.next? p.left, p, w, rfl, ?_, h⟩
  show ((Except.ok (Node.next? w.top.left), w), s) = _
  rw [h.top]

theorem tracks_refuse (e : MatchError) :
    Tracks (MonadWalk.refuse e : Reader n α) (MonadWalk.refuse e : WalkT (StateM S) α) :=
  fun _ w _ _ => Or.inl ⟨e, w, rfl, rfl⟩

theorem tracks_expect (kinds : List String) : Tracks (MonadWalk.expect kinds : Reader n String)
    (MonadWalk.expect kinds : WalkT (StateM S) String) := by
  intro p w s h
  by_cases hnext : ∃ c, Node.next? p.left = some c ∧ c.kind ∈ kinds
  · -- the child is taken in both, and both look at its own children when they leave it
    obtain ⟨c, hc, hk⟩ := hnext
    obtain ⟨texts, rest, hs⟩ := Node.skipComments_of_next? hc
    obtain ⟨_, hrest, hr⟩ := inside_of_next (fun c _ => (pure c.kind : Reader c String))
      (congrArg Prod.snd hs) (List.contains_iff_mem.mpr hk)
    have hrun := WalkT.expect_run (w := w) (s := s) (by rw [h.top]; exact hs) hk
    cases hleave : Node.leave c.kind c.children with
    | error e =>
      rw [hleave] at hrun
      refine Or.inl ⟨e, _, ?_, hrun⟩
      show inside kinds (fun c _ => (pure c.kind : Reader c String)) p = _
      rw [hr]
      show leaving c rest hrest (.ok (c.kind, entering c p)) = _
      rw [leaving, entering, hleave]
    | ok left =>
      rw [hleave] at hrun
      refine Or.inr ⟨c.kind, ⟨rest, hrest, p.comments ++ texts ++ left⟩, _, ?_, hrun, ?_, ?_⟩
      · show inside kinds (fun c _ => (pure c.kind : Reader c String)) p = _
        rw [hr]
        show leaving c rest hrest (.ok (c.kind, entering c p)) = _
        rw [leaving, entering, hleave, hs]
      · rw [Walk.top_moved, h.top]
      · show w.comments ++ texts ++ (Node.skipComments c.children).1 = _
        rw [h.comments, Node.skipComments_of_leave hleave]
  · have hnot : ∀ c, Node.next? p.left = some c → c.kind ∉ kinds :=
      fun c hc hk => hnext ⟨c, hc, hk⟩
    refine Or.inl ⟨Node.mismatch n.kind p.left kinds, w, ?_, ?_⟩
    · exact inside_of_not fun c hc => by simpa using hnot c hc
    · rw [WalkT.expect_of_not_mem (by rw [h.top]; exact hnot), h.top]

/-- **A reader goes in step with a walk.** -/
theorem tracks_simulation : Simulation (Reader n) (WalkT (StateM S)) fun _ => Tracks :=
  ⟨tracks_pure, Tracks.bind, tracks_parent, tracks_peek, tracks_expect, tracks_refuse⟩

/-! ## Options -/

/-- **A reader takes the longest option**, from a token on that begins one, and ends behind as many
siblings as the option has tokens. -/
theorem multiMatch_reader_longest {options : List (List String)} (p : Place n) {c : Node}
    (hc : Node.next? p.left = some c) (hk : c.kind ∈ options.filterMap List.head?)
    (hclosed : PrefixClosed options) (hleaf : Childless options (Node.siblings p.left)) :
    ∃ o q, Longest options ((Node.siblings p.left).map Node.kind) o ∧
      (MonadWalk.multiMatch options : Reader n (Option String)) p = .ok (some (String.join o), q) ∧
      Node.siblings q.left = (Node.siblings p.left).drop o.length := by
  let w : Walk := ⟨⟨n.kind, p.left⟩, [], p.comments⟩
  obtain ⟨o, ho, hrun⟩ := WalkT.takesLongest_of_next options none w () hc hk hclosed.closed hleaf
  rcases tracks_simulation.multiMatchFrom options none p w () ⟨rfl, rfl⟩ with
    ⟨e, w', -, herror⟩ | ⟨text, q, w', hr, hok, hstands⟩
  · cases hrun.symm.trans herror
  · cases hrun.symm.trans hok
    rw [Option.getD_none, String.empty_append] at hr
    refine ⟨o, q, ho, hr, ?_⟩
    have hleft : q.left = (Node.past o.length p.left).2 := by
      have htop := hstands.top
      rw [Walk.past, Walk.top_moved] at htop
      exact (congrArg Cursor.left htop).symm
    rw [hleft, Node.siblings_past]

end Rubify.Reader
