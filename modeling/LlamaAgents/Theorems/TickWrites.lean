import LlamaAgents.Lemmas.AgentWrites

/-!
# The tick journal of the AgentData store

Whenever the process crashes, the next one reads a prefix of the ticks that were appended, numbered from zero, as long as the writes
reach the service in the order of their numbers, none but those that a crash cuts off is lost, and no number is forgotten while a
write is under way.
-/

namespace LlamaAgents

/-- In every run that keeps the writes in order, over any number of crashes, the journal that is read at any moment is a prefix
of the ticks that were appended, with consecutive numbers. -/
theorem agent_tick_journal_has_no_holes {α : Type} {J : TickJournal α}
    (hrun : Lib.Run TickJournal.step (fun J a => J.keepsOrder a) {} J) : ∃ m ≤ J.appended.length,
    (streamTicks J.writes.items).map Numbered.sequence = List.range m ∧
    (streamTicks J.writes.items).map Numbered.data = J.appended.take m := by
  have h : AgentWritesAux.InOrder J := hrun.invariant AgentWritesAux.InOrder AgentWritesAux.inOrder_empty
    fun _ _ _ h ha hstep => AgentWritesAux.step_inOrder h ha hstep
  have hitems : AgentWritesAux.IsNumbered J.writes.items := h.numbered.left
  have hlength : (J.writes.items.map Numbered.data).length = J.writes.items.length := List.length_map _
  have happended := h.appended
  rw [List.map_append] at happended
  rw [AgentWritesAux.streamTicks_eq hitems, ← happended]
  refine ⟨J.writes.items.length, ?_, hitems, ?_⟩
  · rw [List.length_append, hlength]
    exact Nat.le_add_right _ _
  · exact (List.take_left' hlength).symm

/-- A journal with a hole is read when the process crashes after the second write has reached the service and before the first has,
and when the first write fails and the run goes on. A number is given out twice when it is forgotten while a tick that was appended
during the cleanup is under way. -/
theorem agent_tick_journal_has_no_holes_false :
    (∃ J : TickJournal String, Lib.Run TickJournal.step (fun _ _ => True) {} J ∧ J.appended = ["a", "b"] ∧
      streamTicks J.writes.items = [⟨1, "b"⟩]) ∧
    (∃ J : TickJournal String, Lib.Run TickJournal.step (fun _ _ => True) {} J ∧ J.appended = ["a", "b"] ∧
      J.writes.underWay = [] ∧ streamTicks J.writes.items = [⟨1, "b"⟩]) ∧
    ∃ J : TickJournal String, Lib.Run TickJournal.step (fun _ _ => True) {} J ∧ J.appended = ["a", "b", "c"] ∧
      streamTicks J.writes.items = [⟨0, "a"⟩, ⟨1, "b"⟩, ⟨1, "c"⟩] := by
  refine ⟨?_, ?_, ?_⟩
  · exact Lib.Run.exists_of_actions _ _ [.append "a", .append "b", .arrive 1] _ (by decide +kernel)
  · exact Lib.Run.exists_of_actions _ _
      [.append "a", .lose 0, .regroup, .append "b", .arrive 1, .respond 1 true, .regroup] _ (by decide +kernel)
  · exact Lib.Run.exists_of_actions _ _
      [.append "a", .arrive 0, .respond 0 true, .cleanup, .append "b", .forget 0, .append "c", .arrive 1, .arrive 2] _
      (by decide +kernel)

/-- A crash cuts off the second of two writes: the next process reads the first, and goes on from there. -/
theorem agent_tick_journal_has_no_holes_crashed : ∃ J : TickJournal String, J.appended = ["a", "c"] ∧
    ∃ m ≤ 2, (streamTicks J.writes.items).map Numbered.sequence = List.range m ∧
      (streamTicks J.writes.items).map Numbered.data = ["a", "c"].take m := by
  obtain ⟨J, hrun, happended⟩ := Lib.Run.exists_of_exec (@TickJournal.step String) (fun J a => J.keepsOrder a) {}
    [.append "a", .append "b", .arrive 0, .restart, .append "c", .arrive 0, .respond 0 true, .cleanup, .forget 0]
    (fun J => J.appended = ["a", "c"]) (by decide +kernel)
  obtain ⟨m, hm, hnumbers, hticks⟩ := agent_tick_journal_has_no_holes hrun
  rw [happended] at hm hticks
  exact ⟨J, happended, m, hm, hnumbers, hticks⟩

end LlamaAgents
