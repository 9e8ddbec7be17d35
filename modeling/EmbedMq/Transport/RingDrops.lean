import EmbedMq.Transport.Ring

/-!
# Messages dropped for want of a slot

A producer loads `head` and then `tail`. If the consumer passes the loaded `head` between
the two loads, their difference wraps around and the ring looks full. When that does not
happen, a message is dropped only if the ring was full at an instant of the call. The number
of reservations is not bounded here.
-/

namespace EmbedMq

namespace ShmRing

variable {g : Geometry} {s s' : ShmRing} {p : Nat}

/-- The number of reservations when the producer loaded `head`; it loads `tail` next. -/
def Producer.since : Producer → Option Nat
  | .loadTail _ _ since => some since
  | _ => none

/-- When a producer loads `tail`, the consumer has not passed the `head` that it loaded. -/
def NotOvertaken (s : ShmRing) : Label → Prop
  | .produce p _ => ∀ since ∈ (s.producers p).since, s.released ≤ since
  | _ => True

instance (s : ShmRing) : (l : Label) → Decidable (NotOvertaken s l)
  | .call _ _ => isTrue trivial
  | .produce _ _ => inferInstanceAs (Decidable (∀ _ ∈ _, _))
  | .consume => isTrue trivial

/-- The runs without such a step. -/
def inTurn (g : Geometry) : TransitionSystem ShmRing Label := (system g).restrict NotOvertaken

instance (s : ShmRing) (l : Label) : Decidable ((inTurn g).enabled s l) :=
  inferInstanceAs (Decidable (Enabled g s l ∧ NotOvertaken s l))

/-! ### The invariant -/

/-- The value of `tail` that the consumer has loaded and will use. -/
def Consumer.tail : Consumer → Option UInt32
  | .loadTail => none
  | .loadHead tail => some tail
  | .loadState tail => some tail
  | .readLen tail => some tail
  | .copy tail _ => some tail
  | .storeEmpty tail _ => some tail
  | .storeTail tail _ => some tail
  | .callback _ => none

/-- What a producer has loaded, unless it has already seen a full ring. -/
def Looks (g : Geometry) (s : ShmRing) (p : Nat) : Producer → Prop
  | .loadTail _ head since =>
      head = UInt32.ofNat since ∧
        (s.sawFull p = true ∨ since < s.released + g.slotCount.toNat)
  | .compare _ head tail since passed =>
      head = UInt32.ofNat since ∧ tail = UInt32.ofNat passed ∧
        (s.sawFull p = true ∨ passed ≤ since ∧ since < passed + g.slotCount.toNat)
  | _ => True

structure Counted (g : Geometry) (s : ShmRing) : Prop where
  head : s.head = UInt32.ofNat s.reservations.length
  tail : s.tail = UInt32.ofNat s.released
  loaded : ∀ tail ∈ s.consumer.tail, tail = UInt32.ofNat s.released
  producer : ∀ p, Looks g s p (s.producers p)
  drops : ∀ full ∈ s.drops, full = true

/-- Slots are only released, and a full ring is not forgotten. -/
theorem Looks.mono {producer : Producer} (h : Looks g s p producer)
    (hreleased : s.released ≤ s'.released) (hsaw : s.sawFull p = true → s'.sawFull p = true) :
    Looks g s' p producer := by
  cases producer with
  | loadTail m head since =>
      exact ⟨h.1, h.2.imp hsaw fun hlt => hlt.trans_le (Nat.add_le_add_right hreleased _)⟩
  | compare m head tail since passed => exact ⟨h.1, h.2.1, h.2.2.imp hsaw fun hpassed => hpassed⟩
  | _ => trivial

theorem sawFull_observe {q : Nat} (h : s.sawFull q = true) : (observe g s).sawFull q = true :=
  Bool.or_eq_true_iff.mpr (.inl h)

theorem sawFull_of_full {q : Nat} (h : s.released + g.slotCount.toNat ≤ s.reservations.length) :
    (observe g s).sawFull q = true :=
  Bool.or_eq_true_iff.mpr (.inr (decide_eq_true h))

/-- The capacity check only fails on a ring that was full. -/
theorem sawFull_of_distance {m : Outgoing} {head tail : UInt32} {since passed : Nat}
    (h : Looks g s p (.compare m head tail since passed)) (hfull : g.slotCount ≤ head - tail) :
    s.sawFull p = true := by
  obtain ⟨hhead, htail, hsaw | ⟨hpassed, hsince⟩⟩ := h
  · exact hsaw
  · have hcount : g.slotCount.toNat < 2 ^ 32 := g.slotCount.toNat_lt
    have hdistance : (head - tail).toNat = since - passed := by
      rw [hhead, htail]
      exact counter_sub hpassed (by omega)
    have hle : g.slotCount.toNat ≤ (head - tail).toNat := UInt32.le_iff_toNat_le.mp hfull
    omega

namespace Counted

/-- A producer moves on and maybe reserves a slot. -/
theorem of_produce (h : Counted g s) {producer : Producer}
    (hproducers : s'.producers = Function.update s.producers p producer)
    (hhead : s'.head = UInt32.ofNat s'.reservations.length) (htail : s'.tail = s.tail)
    (hreleased : s'.released = s.released) (hconsumer : s'.consumer = s.consumer)
    (hsaw : ∀ q, q ≠ p → s.sawFull q = true → s'.sawFull q = true)
    (hlooks : Looks g s' p producer) (hdrops : ∀ full ∈ s'.drops, full = true) :
    Counted g s' := by
  refine ⟨hhead, ?_, ?_, fun q => ?_, hdrops⟩
  · rw [htail, hreleased]
    exact h.tail
  · rw [hconsumer, hreleased]
    exact h.loaded
  · rw [hproducers]
    by_cases hq : q = p
    · subst hq
      rw [Function.update_self]
      exact hlooks
    · rw [Function.update_of_ne hq]
      exact (h.producer q).mono hreleased.ge (hsaw q hq)

/-- The consumer moves on. -/
theorem of_consume (h : Counted g s) (hproducers : s'.producers = s.producers)
    (hhead : s'.head = s.head) (hreservations : s'.reservations = s.reservations)
    (htail : s'.tail = UInt32.ofNat s'.released) (hreleased : s.released ≤ s'.released)
    (hloaded : ∀ tail ∈ s'.consumer.tail, tail = UInt32.ofNat s'.released)
    (hsaw : ∀ q, s.sawFull q = true → s'.sawFull q = true) (hdrops : s'.drops = s.drops) :
    Counted g s' := by
  refine ⟨?_, htail, hloaded, fun q => ?_, hdrops ▸ h.drops⟩
  · rw [hhead, hreservations]
    exact h.head
  · rw [hproducers]
    exact (h.producer q).mono hreleased (hsaw q)

theorem produce (h : Counted g s) {spurious : Bool} (hcond : NotOvertaken s (.produce p spurious)) :
    Counted g (observe g (s.produce g p spurious)) := by
  have hlooks : Looks g s p (s.producers p) := h.producer p
  have hsaw : ∀ {t : ShmRing} q, t.sawFull = s.sawFull → s.sawFull q = true →
      (observe g t).sawFull q = true :=
    fun q hsame hq => sawFull_observe (hsame ▸ hq)
  cases hp : s.producers p with
  | idle =>
      simp only [ShmRing.produce, hp]
      have hsame : s.producers = Function.update s.producers p .idle :=
        (Function.update_eq_self_iff.mpr hp.symm).symm
      exact h.of_produce hsame h.head rfl rfl rfl (fun q _ => hsaw q rfl) trivial h.drops
  | loadHead m =>
      simp only [ShmRing.produce, hp]
      refine h.of_produce rfl h.head rfl rfl rfl (fun q _ => hsaw q rfl) ⟨h.head, ?_⟩ h.drops
      rcases Nat.lt_or_ge s.reservations.length (s.released + g.slotCount.toNat) with hroom | hfull
      · exact .inr hroom
      · exact .inl (sawFull_of_full hfull)
  | loadTail m head since =>
      rw [hp] at hlooks
      have hpassed : s.released ≤ since := hcond since (by rw [hp]; rfl)
      simp only [ShmRing.produce, hp]
      refine h.of_produce rfl h.head rfl rfl rfl (fun q _ => hsaw q rfl) ?_ h.drops
      exact ⟨hlooks.1, h.tail, hlooks.2.imp (hsaw p rfl) fun hlt => ⟨hpassed, hlt⟩⟩
  | compare m head tail since passed =>
      rw [hp] at hlooks
      simp only [ShmRing.produce, hp]
      split_ifs with hfull hcas
      · refine h.of_produce rfl h.head rfl rfl rfl (fun q _ => hsaw q rfl) trivial ?_
        intro full hmem
        rcases List.mem_append.mp hmem with hold | hnew
        · exact h.drops full hold
        · rw [List.mem_singleton.mp hnew]
          exact sawFull_of_distance hlooks hfull
      · have hlength : (s.reservations ++ [(⟨m.bytes, false⟩ : Reservation)]).length
            = s.reservations.length + 1 := List.length_append
        refine h.of_produce rfl ?_ rfl rfl rfl (fun q _ => hsaw q rfl) trivial h.drops
        calc head + 1 = UInt32.ofNat (s.reservations.length + 1) := by
              rw [← hcas.1, h.head, counter_succ]
          _ = _ := congrArg UInt32.ofNat hlength.symm
      · exact h.of_produce rfl h.head rfl rfl rfl (fun q _ => hsaw q rfl) trivial h.drops
  | awaiting r spin =>
      simp only [ShmRing.produce, hp]
      split_ifs <;>
        exact h.of_produce rfl h.head rfl rfl rfl (fun q _ => hsaw q rfl) trivial h.drops
  | writing r left =>
      cases left with
      | nil =>
          simp only [ShmRing.produce, hp]
          exact h.of_produce rfl (h.head.trans (congrArg _ (List.length_set ..).symm)) rfl rfl rfl
            (fun q _ => hsaw q rfl) trivial h.drops
      | cons w left =>
          simp only [ShmRing.produce, hp]
          exact h.of_produce rfl h.head rfl rfl rfl (fun q _ => hsaw q rfl) trivial h.drops
  | placeholder r sized =>
      cases sized <;> simp only [ShmRing.produce, hp] <;>
        exact h.of_produce rfl h.head rfl rfl rfl (fun q _ => hsaw q rfl) trivial h.drops

theorem consume (h : Counted g s) : Counted g (observe g (s.consume g)) := by
  have hloaded : ∀ tail ∈ s.consumer.tail, tail = UInt32.ofNat s.released := h.loaded
  have hsaw : ∀ {t : ShmRing} q, t.sawFull = s.sawFull → s.sawFull q = true →
      (observe g t).sawFull q = true :=
    fun q hsame hq => sawFull_observe (hsame ▸ hq)
  cases hc : s.consumer with
  | loadTail =>
      simp only [ShmRing.consume, hc]
      refine h.of_consume rfl rfl rfl h.tail (Nat.le_refl _) ?_ (fun q => hsaw q rfl) rfl
      rintro tail ⟨⟩
      exact h.tail
  | storeTail tail data =>
      rw [hc] at hloaded
      have htail : tail + 1 = UInt32.ofNat (s.released + 1) := by
        rw [hloaded tail rfl, counter_succ]
      simp only [ShmRing.consume, hc]
      refine h.of_consume rfl rfl rfl htail (Nat.le_succ _) ?_ (fun q => hsaw q rfl) rfl
      rintro tail ⟨⟩
  | loadHead tail =>
      rw [hc] at hloaded
      simp only [ShmRing.consume, hc]
      refine h.of_consume rfl rfl rfl h.tail (Nat.le_refl _) ?_ (fun q => hsaw q rfl) rfl
      intro tail' hmem
      change tail' ∈ (if tail = s.head then Consumer.loadTail else .loadState tail).tail at hmem
      split_ifs at hmem
      · cases hmem
      · exact hloaded tail' hmem
  | loadState tail =>
      rw [hc] at hloaded
      simp only [ShmRing.consume, hc]
      refine h.of_consume rfl rfl rfl h.tail (Nat.le_refl _) ?_ (fun q => hsaw q rfl) rfl
      intro tail' hmem
      change tail' ∈ (if (s.slotAt g tail).state = .ready then Consumer.readLen tail
        else .loadTail).tail at hmem
      split_ifs at hmem
      · exact hloaded tail' hmem
      · cases hmem
  | callback data =>
      simp only [ShmRing.consume, hc]
      refine h.of_consume rfl rfl rfl h.tail (Nat.le_refl _) ?_ (fun q => hsaw q rfl) rfl
      rintro tail ⟨⟩
  | _ =>
      rw [hc] at hloaded
      simp only [ShmRing.consume, hc]
      exact h.of_consume rfl rfl rfl h.tail (Nat.le_refl _) hloaded (fun q => hsaw q rfl) rfl

theorem next (h : Counted g s) {l : Label} (hcond : NotOvertaken s l) :
    Counted g ((system g).next s l) := by
  cases l with
  | call p m =>
      refine h.of_produce rfl h.head rfl rfl rfl ?_ trivial h.drops
      intro q hq hsaw
      apply sawFull_observe
      exact (Function.update_of_ne hq ..).trans hsaw
  | produce p spurious => exact h.produce hcond
  | consume => exact h.consume

theorem init (g : Geometry) : Counted g {} where
  head := rfl
  tail := rfl
  loaded := by rintro tail ⟨⟩
  producer _ := trivial
  drops := by rintro full ⟨⟩

end Counted

/-- At every instant of every interleaving in which no consumer passes a `head` that a
producer has just loaded: whenever a message was dropped, the ring was full during the call. -/
theorem drops_full (h : (inTurn g).Reachable s) : ∀ full ∈ s.drops, full = true := by
  have hcounted : Counted g s := by
    refine TransitionSystem.Reachable.invariant ?_ ?_ h
    · rintro s rfl
      exact Counted.init g
    · exact fun s l _ hcounted hstep => hcounted.next hstep.2
  exact hcounted.drops

/-- Two messages fill the smallest ring, and the third one is dropped. -/
def thirdDropped : List Label :=
  let send := .call 0 (.buffer [1]) :: List.replicate 7 (.produce 0 false)
  send ++ send ++ send.take 4

theorem drops_full_third :
    (∀ full ∈ ((inTurn smallest).exec {} thirdDropped).drops, full = true) ∧
      ((inTurn smallest).exec {} thirdDropped).drops = [true] := by
  have hadmits : (inTurn smallest).Admits {} thirdDropped := by decide
  exact ⟨drops_full (.exec (.init rfl) hadmits), by decide⟩

/-- Between the two loads of producer 0, a message of producer 1 goes through the ring. -/
def overtaken : List Label :=
  [.call 0 (.buffer [1]), .produce 0 false, .call 1 (.buffer [2])] ++
    List.replicate 7 (.produce 1 false) ++ List.replicate 7 .consume ++
    List.replicate 2 (.produce 0 false)

theorem not_drops_full :
    ¬ ∀ (g : Geometry) (s : ShmRing), (system g).Reachable s → ∀ full ∈ s.drops, full = true := by
  intro hclaim
  have hadmits : (system smallest).Admits {} overtaken := by decide
  have hdrops : ((system smallest).exec {} overtaken).drops = [false] := by decide
  have hfull := hclaim smallest _ (.exec (.init rfl) hadmits) false
    (hdrops ▸ List.mem_singleton.mpr rfl)
  cases hfull

end ShmRing

end EmbedMq
