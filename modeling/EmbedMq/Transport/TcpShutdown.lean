import EmbedMq.Transport.TcpReceiver

/-!
# How a shutdown of the TCP transport ends

`shutdown` joins the accept thread and waits for the client threads, so it returns only when each of
them gets out of the call of the system that it is in. Whether its threads alone bring a call of
`shutdown` to its end, and what is left of them when it has returned.
-/

namespace EmbedMq

def ClientLoop.work : ClientLoop → Nat
  | .call => 11
  | .receiving => 10
  | .received _ => 9
  | .inCallback => 8
  | .check => 7
  | .leaving => 6
  | .finishing => 5
  -- The notification may send the call of `shutdown` back to the lock.
  | .notifying => 4
  | .exited => 0

def AcceptLoop.work : AcceptLoop → Nat
  | .call => 12
  | .accepting => 11
  | .holding _ _ => 10
  -- A client loop is started.
  | .spawning _ => 9
  | .sleeping => 2
  | .check => 1
  | .exited => 0

def TcpShutdown.work : TcpShutdown → Nat
  | .none => 8
  | .closeListen => 7
  | .closeAll => 6
  | .joining => 5
  | .locking => 3
  | .testing => 2
  | .blocking => 1
  | .waiting => 0
  | .returned => 0

namespace TcpLine

def work (line : TcpLine) : Nat := line.loop.elim 0 ClientLoop.work

theorem recv_work (line : TcpLine) {otherwise : ClientLoop} (h : otherwise.work ≤ 10) :
    (line.recv otherwise).work ≤ 10 := by
  rw [recv]
  split
  · exact (by decide : 9 ≤ 10)
  · split
    · exact (by decide : 6 ≤ 10)
    · exact h

/-- While the transport is inactive, each step brings the loop closer to its end. -/
theorem step_work {line : TcpLine} {loop : ClientLoop} (hloop : line.loop = some loop)
    (hne : loop ≠ .exited) (callback last : Bool) :
    (line.step false callback last).work + (if loop = .notifying then 4 else 1) ≤ line.work := by
  have hwork : line.work = loop.work := by rw [work, hloop]; rfl
  rw [hwork]
  cases loop with
  | call =>
      simp only [step, hloop]
      split
      · exact (by decide : 6 + 1 ≤ 11)
      · exact Nat.succ_le_succ (recv_work line (by decide))
  | receiving =>
      simp only [step, hloop, recv]
      split
      · exact (by decide : 9 + 1 ≤ 10)
      · split
        · exact (by decide : 6 + 1 ≤ 10)
        · exact (by decide : 6 + 1 ≤ 10)
  | received msg => cases callback <;> simp [step, hloop, moveTo, work, ClientLoop.work]
  | finishing => cases last <;> simp [step, hloop, moveTo, work, ClientLoop.work]
  | exited => exact absurd rfl hne
  | _ => simp [step, hloop, moveTo, work, ClientLoop.work]

/-- The loop is not in, and does not come to, a call of `recv` that nothing ends. -/
def Free (line : TcpLine) : Prop :=
  line.loop = some .receiving ∨ line.loop = some .call ∧ line.closed = false → line.Fed

theorem Free.recv {line : TcpLine} (h : line.Fed) (otherwise : ClientLoop) :
    (line.recv otherwise).Free := by
  rw [TcpLine.recv]
  split
  · rintro (⟨⟨⟩⟩ | ⟨⟨⟩, -⟩)
  · rename_i hempty
    rw [if_pos (h.resolve_left fun hne => hne hempty)]
    rintro (⟨⟨⟩⟩ | ⟨⟨⟩, -⟩)

theorem Free.step {line : TcpLine} (h : line.Free) (callback last : Bool) :
    (line.step false callback last).Free := by
  obtain hloop | ⟨loop, hloop⟩ := Option.eq_none_or_eq_some line.loop
  · simpa only [TcpLine.step, hloop] using h
  · cases loop with
    | call =>
        simp only [TcpLine.step, hloop]
        split
        · rintro (⟨⟨⟩⟩ | ⟨⟨⟩, -⟩)
        · rename_i hopen
          exact .recv (h (.inr ⟨hloop, Bool.eq_false_iff.mpr hopen⟩)) _
    | receiving =>
        simp only [TcpLine.step, hloop]
        exact .recv (h (.inl hloop)) _
    | received msg =>
        cases callback <;> simp only [TcpLine.step, hloop] <;> rintro (⟨⟨⟩⟩ | ⟨⟨⟩, -⟩)
    | finishing => cases last <;> simp only [TcpLine.step, hloop] <;> rintro (⟨⟨⟩⟩ | ⟨⟨⟩, -⟩)
    | exited => simpa only [TcpLine.step, hloop] using h
    | _ =>
        simp only [TcpLine.step, hloop]
        rintro (⟨⟨⟩⟩ | ⟨⟨⟩, -⟩)

theorem Free.close {line : TcpLine} (h : line.Free) : line.close.Free := by
  rw [TcpLine.close]
  split
  · rintro (hreceiving | ⟨-, ⟨⟩⟩)
    exact h (.inl hreceiving)
  · exact h

theorem fed_close {line : TcpLine} : line.close.Fed ↔ line.Fed := by
  rw [close]
  split <;> exact Iff.rfl

end TcpLine

namespace TcpReceiver

variable {wakes : Bool} {s : TcpReceiver}

/-- The steps of the threads and of the call of `shutdown`. -/
def Label.Own : Label → Prop
  | .accept => True
  | .client _ => True
  | .stop => True
  | _ => False

def shuttingDown (wakes : Bool) : TransitionSystem TcpReceiver Label :=
  (system wakes).restrict fun _ l => l.Own

def linesWork (s : TcpReceiver) : Nat := (s.lines.map TcpLine.work).sum

def shutdownWork (s : TcpReceiver) : Nat := s.acceptLoop.work + s.linesWork + s.stop.work

theorem accept_same (s : TcpReceiver) : s.accept.stop = s.stop ∧ s.accept.calls = s.calls := by
  rw [accept, acceptFailed]
  split
  · exact ⟨rfl, rfl⟩
  · split
    · split <;> exact ⟨rfl, rfl⟩
    · exact ⟨rfl, rfl⟩
  · split <;> exact ⟨rfl, rfl⟩
  · exact ⟨rfl, rfl⟩
  · exact ⟨rfl, rfl⟩
  · exact ⟨rfl, rfl⟩
  · exact ⟨rfl, rfl⟩

/-! ### Each step brings the call closer to its end -/

theorem acceptFailed_work (hinactive : s.active = false) :
    s.acceptFailed.shutdownWork + s.acceptLoop.work = s.shutdownWork := by
  simp only [acceptFailed, hinactive, shutdownWork, linesWork]
  simp only [Bool.false_eq_true, if_false, AcceptLoop.work]
  omega

theorem accept_work (h : Inv s) (hinactive : s.active = false) (hne : s.acceptLoop ≠ .exited) :
    s.accept.shutdownWork < s.shutdownWork := by
  have hfailed := acceptFailed_work hinactive
  cases hplace : s.acceptLoop with
  | check => simp [TcpReceiver.accept, hplace, hinactive, shutdownWork, linesWork, AcceptLoop.work]
  | call =>
      rw [hplace, AcceptLoop.work] at hfailed
      simp only [TcpReceiver.accept, hplace]
      split
      · split <;> simp [shutdownWork, linesWork, hplace, AcceptLoop.work]
      · omega
  | accepting =>
      rw [hplace, AcceptLoop.work] at hfailed
      simp only [TcpReceiver.accept, hplace]
      split
      · simp [shutdownWork, linesWork, hplace, AcceptLoop.work]
      · omega
  | holding pending ended =>
      simp [TcpReceiver.accept, hplace, shutdownWork, linesWork, AcceptLoop.work, TcpLine.work]
  | spawning c =>
      have hnone := (h.spawning c).mp hplace
      rw [List.getElem?_map] at hnone
      obtain ⟨line, hline, hloop⟩ := Option.map_eq_some_iff.mp hnone
      have hsum := List.sum_map_modify (·.moveTo .check) TcpLine.work hline
      rw [TcpLine.work, hloop] at hsum
      simp only [TcpReceiver.accept, hplace, shutdownWork, linesWork, AcceptLoop.work]
      simp only [TcpLine.work, TcpLine.moveTo, ClientLoop.work, Option.elim_some,
        Option.elim_none] at hsum ⊢
      omega
  | sleeping => simp [TcpReceiver.accept, hplace, shutdownWork, linesWork, AcceptLoop.work]
  | exited => exact absurd hplace hne

theorem client_work (hinactive : s.active = false) {c : Nat} {line : TcpLine}
    (hline : s.lines[c]? = some line) {loop : ClientLoop} (hloop : line.loop = some loop)
    (hne : loop ≠ .exited) : (s.client c).shutdownWork < s.shutdownWork := by
  have hstep := TcpLine.step_work hloop hne s.callback (s.clientThreadCount == 1)
  have hsum := List.sum_map_modify
    (·.step s.active s.callback (s.clientThreadCount == 1)) TcpLine.work hline
  rw [hinactive] at hsum
  have hlines : (s.client c).linesWork + line.work =
      s.linesWork + (line.step false s.callback (s.clientThreadCount == 1)).work := by
    rw [client_eq hline, linesWork, linesWork, hinactive]
    exact hsum
  have hplace : (s.client c).acceptLoop = s.acceptLoop := by rw [client_eq hline]
  rw [shutdownWork, shutdownWork, hplace]
  obtain ⟨hnotifying, hwaiting, hstop⟩ | ⟨-, hstop⟩ := client_stop hline
  · obtain rfl := Option.some.inj (hloop.symm.trans hnotifying)
    rw [if_pos rfl] at hstep
    rw [hstop, hwaiting, TcpShutdown.work, TcpShutdown.work]
    omega
  · rw [hstop]
    split at hstep <;> omega

theorem stopping_work (hnone : s.stop ≠ .none) (hwaiting : s.stop ≠ .waiting)
    (hreturned : s.stop ≠ .returned) : s.stopping.shutdownWork < s.shutdownWork := by
  cases hplace : s.stop with
  | closeAll =>
      have hsame : (s.lines.map TcpLine.close).map TcpLine.work = s.lines.map TcpLine.work := by
        rw [List.map_map]
        refine List.map_congr_left fun line _ => ?_
        rw [Function.comp_apply, TcpLine.work, TcpLine.close_loop]
        rfl
      simp [stopping, hplace, shutdownWork, linesWork, hsame, TcpShutdown.work]
  | testing =>
      simp only [stopping, hplace, shutdownWork, linesWork]
      split <;> simp [TcpShutdown.work]
  | none => exact absurd hplace hnone
  | waiting => exact absurd hplace hwaiting
  | returned => exact absurd hplace hreturned
  | _ => simp [stopping, hplace, shutdownWork, linesWork, TcpShutdown.work]

section Own

variable {l : Label} (h : Inv s) (hbusy : s.stop ≠ .none)
include h hbusy

theorem inactive_of_busy : s.active = false :=
  Bool.eq_false_iff.mpr fun hactive => hbusy (h.active.mp hactive)

variable (henabled : (shuttingDown wakes).enabled s l)
include henabled

theorem own_work : (s.next l).shutdownWork < s.shutdownWork := by
  obtain ⟨hsystem, hown⟩ := henabled
  cases l with
  | accept => exact accept_work h (inactive_of_busy h hbusy) hsystem.1
  | client c =>
      obtain ⟨line, hline, loop, hloop, hproceeds⟩ := hsystem
      refine client_work (inactive_of_busy h hbusy) hline hloop ?_
      rintro rfl
      exact hproceeds
  | stop => exact stopping_work hbusy hsystem.2.1 hsystem.2.2.1
  | _ => exact hown.elim

omit h in
/-- The call goes on. -/
theorem own_busy : (s.next l).stop ≠ .none := by
  obtain ⟨hsystem, hown⟩ := henabled
  cases l with
  | accept =>
      rw [next, (accept_same s).1]
      exact hbusy
  | client c =>
      obtain ⟨line, hline, -⟩ := hsystem
      obtain ⟨-, -, hstop⟩ | ⟨-, hstop⟩ := client_stop hline
      · rw [next, hstop]
        rintro ⟨⟩
      · rw [next, hstop]
        exact hbusy
  | stop =>
      cases hplace : s.stop with
      | testing =>
          simp only [next, stopping, hplace]
          split <;> rintro ⟨⟩
      | none => exact absurd hplace hbusy
      | _ =>
          simp only [next, stopping, hplace]
          rintro ⟨⟩
  | _ => exact hown.elim

end Own

/-! ### The calls of the system that nothing ends -/

/-- A thread is in `accept` or in `recv`, and nothing is there for it. -/
def Hangs (s : TcpReceiver) : Prop :=
  (s.acceptLoop = .accepting ∧ s.backlog = []) ∨
    ∃ (c : Nat) (line : TcpLine), s.lines[c]? = some line ∧ line.loop = some .receiving ∧ ¬ line.Fed

/-- No thread is in such a call, or comes to it. -/
structure Free (s : TcpReceiver) : Prop where
  call : s.acceptLoop = .call → s.listening = true → s.backlog ≠ []
  accepting : s.acceptLoop = .accepting → s.backlog ≠ []
  lines : ∀ line ∈ s.lines, line.Free

namespace Free

variable {l : Label} (h : s.Free) (hinactive : s.active = false)
include h hinactive

/-- The accept thread comes to no further call of `accept`. -/
theorem accept_place : s.accept.acceptLoop ≠ .call ∧ s.accept.acceptLoop ≠ .accepting := by
  cases hplace : s.acceptLoop with
  | check => simp [TcpReceiver.accept, hplace, hinactive]
  | call =>
      simp only [TcpReceiver.accept, hplace]
      split
      · rename_i hopen
        split
        · exact ⟨by rintro ⟨⟩, by rintro ⟨⟩⟩
        · rename_i hempty
          exact absurd hempty (h.call hplace hopen)
      · simp [acceptFailed, hinactive]
  | accepting =>
      simp only [TcpReceiver.accept, hplace]
      split
      · exact ⟨by rintro ⟨⟩, by rintro ⟨⟩⟩
      · rename_i hempty
        exact absurd hempty (h.accepting hplace)
  | _ => simp [TcpReceiver.accept, hplace]

theorem accept : s.accept.Free where
  call hcall := absurd hcall (h.accept_place hinactive).1
  accepting haccepting := absurd haccepting (h.accept_place hinactive).2
  lines := by
    rw [TcpReceiver.accept, acceptFailed]
    split
    · exact h.lines
    · split
      · split <;> exact h.lines
      · exact h.lines
    · split <;> exact h.lines
    · intro line hmem
      obtain hmem | hmem := List.mem_append.mp hmem
      · exact h.lines line hmem
      · obtain rfl := List.mem_singleton.mp hmem
        rintro (⟨⟨⟩⟩ | ⟨⟨⟩, -⟩)
    · refine List.forall_mem_modify h.lines fun line _ _ => ?_
      rintro (⟨⟨⟩⟩ | ⟨⟨⟩, -⟩)
    · exact h.lines
    · exact h.lines

theorem client {c : Nat} {line : TcpLine} (hline : s.lines[c]? = some line) :
    (s.client c).Free := by
  rw [client_eq hline, hinactive]
  exact ⟨h.call, h.accepting, List.forall_mem_modify h.lines fun _ _ hfree => hfree.step _ _⟩

omit hinactive in
theorem stopping : s.stopping.Free := by
  rw [TcpReceiver.stopping]
  split
  · exact h
  · exact ⟨by rintro _ ⟨⟩, h.accepting, h.lines⟩
  · refine ⟨h.call, h.accepting, fun line hmem => ?_⟩
    obtain ⟨before, hbefore, rfl⟩ := List.mem_map.mp hmem
    exact (h.lines before hbefore).close
  all_goals exact ⟨h.call, h.accepting, h.lines⟩

theorem own (henabled : (shuttingDown wakes).enabled s l) : (s.next l).Free := by
  obtain ⟨hsystem, hown⟩ := henabled
  cases l with
  | accept => exact h.accept hinactive
  | client c =>
      obtain ⟨line, hline, -⟩ := hsystem
      exact h.client hinactive hline
  | stop => exact h.stopping
  | _ => exact hown.elim

end Free

/-- The accept thread leaves the client loops that run alone. -/
theorem accept_line (h : Inv s) {c : Nat} {line : TcpLine} (hline : s.lines[c]? = some line)
    (hstarted : line.loop ≠ none) : s.accept.lines[c]? = some line := by
  rw [accept, acceptFailed]
  split
  · exact hline
  · split
    · split <;> exact hline
    · exact hline
  · split <;> exact hline
  · exact (List.getElem?_append_left (List.getElem?_eq_some_iff.mp hline).1).trans hline
  · rename_i d hplace
    have hnone := (h.spawning d).mp hplace
    refine (List.getElem?_modify_ne _ _ ?_).trans hline
    rintro rfl
    rw [List.getElem?_map, hline] at hnone
    exact hstarted (Option.some.inj hnone)
  · exact hline
  · exact hline

/-- Where `close` does not end such a call, the thread stays in it. -/
theorem Hangs.own (h : s.Hangs) (hinv : Inv s) {l : Label}
    (henabled : (shuttingDown false).enabled s l) :
    (s.next l).Hangs := by
  obtain ⟨hsystem, hown⟩ := henabled
  obtain ⟨hplace, hempty⟩ | ⟨c, line, hline, hloop, hunfed⟩ := h
  · cases l with
    | accept =>
        obtain hqueued | ⟨⟨⟩, -⟩ := hsystem.2 hplace
        exact absurd hempty hqueued
    | client c =>
        obtain ⟨line, hline, -⟩ := hsystem
        rw [next, client_eq hline]
        exact .inl ⟨hplace, hempty⟩
    | stop =>
        rw [next, stopping]
        split <;> exact .inl ⟨hplace, hempty⟩
    | _ => exact hown.elim
  · refine .inr ?_
    cases l with
    | accept =>
        have hstarted : line.loop ≠ none := by
          rw [hloop]
          rintro ⟨⟩
        exact ⟨c, line, accept_line hinv hline hstarted, hloop, hunfed⟩
    | client j =>
        obtain ⟨other, hother, loop, hother', hproceeds⟩ := hsystem
        refine ⟨c, line, ?_, hloop, hunfed⟩
        rw [next, client_other hother, hline]
        rintro rfl
        obtain rfl := Option.some.inj (hline.symm.trans hother)
        obtain rfl := Option.some.inj (hloop.symm.trans hother')
        obtain hfed | ⟨⟨⟩, -⟩ := hproceeds
        exact hunfed hfed
    | stop =>
        rw [next, stopping]
        split
        · exact ⟨c, line, hline, hloop, hunfed⟩
        · exact ⟨c, line, hline, hloop, hunfed⟩
        · refine ⟨c, line.close, ?_, (line.close_loop).trans hloop, fun hfed =>
            hunfed (TcpLine.fed_close.mp hfed)⟩
          rw [List.getElem?_map, hline]
          rfl
        all_goals exact ⟨c, line, hline, hloop, hunfed⟩
    | _ => exact hown.elim

theorem own_accept (hplace : s.acceptLoop ≠ .exited)
    (haccepting : s.acceptLoop = .accepting → s.backlog ≠ [] ∨ wakes = true ∧ s.listening = false) :
    (shuttingDown wakes).enabled s .accept := ⟨⟨hplace, haccepting⟩, trivial⟩

theorem own_client {c : Nat} {line : TcpLine} (hline : s.lines[c]? = some line)
    {loop : ClientLoop} (hloop : line.loop = some loop) (hproceeds : s.Proceeds wakes line loop) :
    (shuttingDown wakes).enabled s (.client c) := ⟨⟨line, hline, loop, hloop, hproceeds⟩, trivial⟩

/-- A thread that is not free comes to such a call with its next step, unless it is there. -/
theorem free_of_not_hangs (h : ∀ t, (shuttingDown wakes).Leads s t → ¬ t.Hangs) : s.Free := by
  have hhere := h s (.refl s)
  have hnext : ∀ l, (shuttingDown wakes).enabled s l → ¬ (s.next l).Hangs := fun l henabled =>
    h (s.next l) (.head henabled (.refl _))
  refine ⟨fun hplace hopen hempty => ?_, fun hplace hempty => hhere (.inl ⟨hplace, hempty⟩), ?_⟩
  · have henabled : (shuttingDown wakes).enabled s .accept :=
      own_accept (by rw [hplace]; rintro ⟨⟩) (by rw [hplace]; rintro ⟨⟩)
    refine hnext .accept henabled (.inl ?_)
    simp only [next, accept, hplace, hopen, if_true, hempty]
    exact ⟨trivial, trivial⟩
  · intro line hmem hcalls
    by_contra hunfed
    obtain ⟨c, hline⟩ := List.mem_iff_getElem?.mp hmem
    obtain hreceiving | ⟨hcall, hopen⟩ := hcalls
    · exact hhere (.inr ⟨c, line, hline, hreceiving, hunfed⟩)
    · obtain ⟨hempty, hgoing⟩ := not_or.mp hunfed
      have hstep : line.step s.active s.callback (s.clientThreadCount == 1) =
          line.moveTo .receiving := by
        simp only [TcpLine.step, hcall, hopen, TcpLine.recv, not_not.mp hempty,
          Bool.eq_false_iff.mpr hgoing, Bool.false_eq_true, if_false]
      refine hnext (.client c) (own_client hline hcall trivial)
        (.inr ⟨c, line.moveTo .receiving, ?_, rfl, hunfed⟩)
      exact (client_self hline).trans (congrArg some hstep)

section Stuck

variable (h : Inv s) (hfree : wakes = true ∨ s.Free) (hclosed : s.stop.hasClosed = true)
include h hfree hclosed

/-- After all sockets were closed, the accept thread goes on. -/
theorem accept_goes_on (hne : s.acceptLoop ≠ .exited) :
    (shuttingDown wakes).enabled s .accept := by
  refine own_accept hne fun hplace => ?_
  obtain hwakes | hfree := hfree
  · refine .inr ⟨hwakes, Bool.eq_false_iff.mpr fun hopen => ?_⟩
    exact TcpShutdown.past hclosed (h.listening.mp hopen)
  · exact .inl (hfree.accepting hplace)

/-- So does a client loop, when nobody holds the mutex. -/
theorem client_goes_on (hholds : s.stop.holds = false) {c : Nat} {line : TcpLine}
    (hline : s.lines[c]? = some line) {loop : ClientLoop} (hloop : line.loop = some loop)
    (hne : loop ≠ .exited) : (shuttingDown wakes).enabled s (.client c) := by
  refine own_client hline hloop ?_
  have hmem := List.mem_of_getElem? hline
  cases loop with
  | receiving =>
      obtain hwakes | hfree := hfree
      · exact .inr ⟨hwakes, (h.lines line hmem).cut hclosed _ hloop rfl⟩
      · exact .inl (hfree.lines line hmem (.inl hloop))
  | notifying => exact hholds
  | exited => exact hne rfl
  | _ => trivial

end Stuck

/-- What is left of the threads when no client loop is counted. -/
theorem ended_of_count (h : Inv s) (hexited : s.acceptLoop = .exited)
    (hcount : s.clientThreadCount = 0) {line : TcpLine} (hmem : line ∈ s.lines) :
    line.closed = true ∧ (line.loop = some .notifying ∨ line.loop = some .exited) := by
  have hzero : line.counted = 0 :=
    List.sum_eq_zero_iff.mp hcount _ (List.mem_map_of_mem hmem)
  have hsound := h.lines line hmem
  obtain hnone | ⟨loop, hloop⟩ := Option.eq_none_or_eq_some line.loop
  · -- The accept thread would still have to start the loop.
    obtain ⟨c, hline⟩ := List.mem_iff_getElem?.mp hmem
    have hspawning := (h.spawning c).mpr (by rw [List.getElem?_map, hline, Option.map_some, hnone])
    rw [hexited] at hspawning
    cases hspawning
  · rw [TcpLine.counted, hloop, Option.elim_some] at hzero
    cases loop with
    | notifying => exact ⟨hsound.left _ hloop rfl, .inl hloop⟩
    | exited => exact ⟨hsound.left _ hloop rfl, .inr hloop⟩
    | _ => cases hzero

/-- Nothing is left to do only when the call has returned. -/
theorem returned_of_stuck (h : Inv s) (hbusy : s.stop ≠ .none) (hfree : wakes = true ∨ s.Free)
    (hstuck : ∀ l, ¬ (shuttingDown wakes).enabled s l) :
    s.stop = .returned ∧ s.acceptLoop = .exited ∧
      ∀ line ∈ s.lines, line.loop = some .exited ∧ line.closed = true := by
  have hover : s.stop = .waiting ∨ s.stop = .returned := by
    by_contra hgoing
    obtain ⟨hwaiting, hreturned⟩ := not_or.mp hgoing
    refine hstuck .stop ⟨⟨hbusy, hwaiting, hreturned, fun hjoining => by_contra fun hne => ?_⟩,
      trivial⟩
    exact hstuck .accept (accept_goes_on h hfree (by rw [hjoining]; rfl) hne)
  have hclosed : s.stop.hasClosed = true := by obtain h | h := hover <;> rw [h] <;> rfl
  have hholds : s.stop.holds = false := by obtain h | h := hover <;> rw [h] <;> rfl
  have hexited : s.acceptLoop = .exited :=
    h.joined (by obtain h | h := hover <;> rw [h] <;> rfl)
  have hloops : ∀ line ∈ s.lines, ∀ loop, line.loop = some loop → loop = .exited := by
    intro line hmem loop hloop
    obtain ⟨c, hline⟩ := List.mem_iff_getElem?.mp hmem
    by_contra hne
    exact hstuck (.client c) (client_goes_on h hfree hclosed hholds hline hloop hne)
  have hcount : s.clientThreadCount = 0 := by
    refine List.sum_eq_zero_iff.mpr fun n hn => ?_
    obtain ⟨line, hmem, rfl⟩ := List.mem_map.mp hn
    obtain hnone | ⟨loop, hloop⟩ := Option.eq_none_or_eq_some line.loop
    · rw [TcpLine.counted, hnone, Option.elim_none]
    · obtain rfl := hloops line hmem loop hloop
      rw [TcpLine.counted, hloop]
      rfl
  refine ⟨hover.resolve_left fun hwaiting => ?_, hexited, fun line hmem => ?_⟩
  · obtain hpositive | hnotifies := h.notified (.inr hwaiting)
    · omega
    · obtain ⟨line, hmem, hloop⟩ := List.mem_map.mp hnotifies
      cases hloops line hmem _ hloop
  · obtain ⟨hline, hnotifying | hloop⟩ := ended_of_count h hexited hcount hmem
    · cases hloops line hmem _ hnotifying
    · exact ⟨hloop, hline⟩

/-- A call of `shutdown` that goes on comes to its end in each run of its threads, with all threads
gone and all connections closed, if `close` ends a call of `accept` or `recv` on the same socket.
Where it does not, this is so if and only if there is something to return for each such call that a
thread is in or comes to. Otherwise the call may wait forever. -/
theorem shutdown_joins_iff (h : (system wakes).Reachable s) (hbusy : s.stop ≠ .none) :
    (shuttingDown wakes).Ends s (fun t => t.stop = .returned ∧ t.acceptLoop = .exited ∧
      ∀ line ∈ t.lines, line.loop = some .exited ∧ line.closed = true) ↔
        wakes = true ∨ s.Free := by
  -- What holds of all states that the steps of the threads lead to.
  let going : TcpReceiver → Prop := fun t => Inv t ∧ t.stop ≠ .none
  have hgoing : going s := ⟨inv_of_reachable h, hbusy⟩
  have hnext : ∀ t l, going t → (shuttingDown wakes).enabled t l → going (t.next l) :=
    fun t l ht henabled => ⟨ht.1.next henabled.1, own_busy ht.2 henabled⟩
  have hwork : ∀ t l, going t → (shuttingDown wakes).enabled t l →
      (t.next l).shutdownWork < t.shutdownWork :=
    fun t l ht henabled => own_work ht.1 ht.2 henabled
  constructor
  · intro hends
    cases wakes with
    | true => exact .inl rfl
    | false =>
        refine .inr (@free_of_not_hangs false s fun t hleads hhangs => ?_)
        -- From where a thread hangs, some run goes on until no step is left.
        have ht : going t := hleads.invariant hnext hgoing
        obtain ⟨u, hleads', ⟨-, hhangs'⟩, hstuck⟩ :=
          @TransitionSystem.exists_stuck_of_decreasing _ _ (shuttingDown false)
            (fun t => going t ∧ t.Hangs) shutdownWork
            (fun t l ht henabled => ⟨hnext t l ht.1 henabled, ht.2.own ht.1.1 henabled⟩)
            (fun t l ht henabled => hwork t l ht.1 henabled) t ⟨ht, hhangs⟩
        obtain ⟨-, hexited, hloops⟩ := hends.2 u (hleads.trans hleads') hstuck
        obtain ⟨hplace, -⟩ | ⟨c, line, hline, hloop, -⟩ := hhangs'
        · rw [hexited] at hplace
          cases hplace
        · rw [(hloops line (List.mem_of_getElem? hline)).1] at hloop
          cases hloop
  · intro hfree
    refine @TransitionSystem.ends_of_decreasing _ _ (shuttingDown wakes)
      (fun t => going t ∧ (wakes = true ∨ t.Free)) shutdownWork
      (fun t l ht henabled => ⟨hnext t l ht.1 henabled, ht.2.imp_right fun hfree =>
        hfree.own (inactive_of_busy ht.1.1 ht.1.2) henabled⟩)
      (fun t l ht henabled => hwork t l ht.1 henabled) _ ?_ s ⟨hgoing, hfree⟩
    exact fun t ht hstuck => returned_of_stuck ht.1.1 ht.1.2 ht.2 hstuck

/-- A peer is connected and silent while the transport is shut down. -/
def silentPeer : List Label :=
  [.accept, .incoming [] false, .accept, .accept, .accept, .client 0, .client 0, .shutdown]

theorem shutdown_joins_iff_silentPeer :
    ¬ (shuttingDown false).Ends ((system false).exec {} silentPeer) (fun t =>
      t.stop = .returned ∧ t.acceptLoop = .exited ∧
        ∀ line ∈ t.lines, line.loop = some .exited ∧ line.closed = true) := by
  intro hends
  have hreach : (system false).Reachable ((system false).exec {} silentPeer) :=
    .exec (.init rfl) (by decide)
  obtain ⟨⟨⟩⟩ | hfree := (shutdown_joins_iff hreach (by decide)).mp hends
  have hfed := hfree.lines _ (List.mem_singleton.mpr rfl) (.inl rfl)
  revert hfed
  decide

/-! ### After the shutdown -/

end TcpReceiver

end EmbedMq
