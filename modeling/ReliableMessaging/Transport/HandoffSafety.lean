import ReliableMessaging.Transport.DirectHandoff

/-!
# The direct handoff is safe

What holds in every interleaving of `Ready`, `Publish` and `Close`: a confirmed
publish went through the one producer of its address, after the consumer was
connected there and the topic was bound; and the producers are stopped once
each, after the last send and before a `Close` returns nil.
-/

namespace ReliableMessaging.Transport.DirectHandoff

open List Option

open Outbox (Outcome)
open Threads (tally tally_cons)

variable {validTopic : String → Bool} {k : Choice} {s s' : State}

/-! ## What no thread undoes -/

structure Later (s s' : State) : Prop where
  gate : s.gate.Later s'.gate
  topic : s.topic ≠ "" → s'.topic = s.topic
  created : s.created <+: s'.created
  frozen : s.gate.stopping = true → s'.created = s.created
  connected : s.connected ⊆ s'.connected
  readied : s.readied ⊆ s'.readied
  once : s.once = true → s'.once = true
  stopDone : s.stopDone ≤ s'.stopDone
  stops : s.stops <+: s'.stops

theorem Later.of_eq (gate : s.gate.Later s'.gate) (topic : s'.topic = s.topic)
    (created : s'.created = s.created) (connected : s'.connected = s.connected)
    (readied : s'.readied = s.readied) (once : s'.once = s.once)
    (stopDone : s'.stopDone = s.stopDone) (stops : s'.stops = s.stops) : Later s s' where
  gate := gate
  topic _ := topic
  created := created ▸ prefix_refl _
  frozen _ := created
  connected := connected ▸ List.Subset.refl _
  readied := readied ▸ List.Subset.refl _
  once h := once.trans h
  stopDone := stopDone ▸ Nat.le_refl _
  stops := stops ▸ prefix_refl _

/-- What the mutex keeps from everybody but its holder. -/
structure Keeps (s s' : State) : Prop where
  locked : s'.locked = s.locked
  stopping : s'.gate.stopping = s.gate.stopping
  topic : s'.topic = s.topic

/-! ## What holds of the shared state and of each thread -/

structure Shared (s : State) : Prop where
  producers : s.producers = s.created.zipIdx
  distinct : s.created.Nodup
  linked : ∀ a ∈ s.created, a ∈ s.connected
  bound : s.topic ≠ "" → s.topic ∈ s.readied
  single : ∀ t ∈ s.readied, t = s.topic ∧ t ≠ ""
  shut : s.once = true → s.gate.stopping = true ∧ s.gate.drained ≠ 0
  waits : s.once = false → s.stops = []

@[grind] def Ready.inside (r : Ready) : Bool :=
  match r.stage with
  | .inside | .connecting | .rechecking | .creating | .finishing => true
  | _ => false

/-- It has found the handoff open for its topic. -/
@[grind] def Ready.setting (r : Ready) : Bool :=
  match r.stage with
  | .connecting | .rechecking | .creating | .finishing => true
  | _ => false

@[grind] def Ready.linked (r : Ready) : Bool :=
  match r.stage with
  | .rechecking | .creating | .finishing => true
  | _ => false

variable {r : Ready} {t t' : Thread} {a : String} {maxInFlight : Nat}
variable {others pool : Multiset Thread}

theorem Ready.inside_of_setting (h : r.setting = true) : r.inside = true := by
  unfold Ready.setting at h
  unfold Ready.inside
  split at h <;> simp_all

theorem Ready.setting_of_linked (h : r.linked = true) : r.setting = true := by
  unfold Ready.linked at h
  unfold Ready.setting
  split at h <;> simp_all

structure Ready.Fine (s : State) (r : Ready) : Prop where
  named : r.stage ≠ .checking → r.stage ≠ .returned false → r.topic ≠ ""
  locked : r.inside = true → s.locked = true
  opened : r.setting = true → s.gate.stopping = false ∧ (s.topic = "" ∨ s.topic = r.topic)
  linked : r.linked = true → r.address ∈ s.connected
  missing : r.stage = .creating → r.address ∉ s.created

structure Call.Fine (s : State) (c : Call) : Prop where
  sound : Sends.Sound sendOutcome (· ≠ .confirmed) c
  named : c.entered = true → c.data.topic ≠ ""
  aimed : ∀ p, c.target = some p →
    s.created[p]? = some c.data.address ∧ s.topic = c.data.topic ∧ c.data.topic ≠ ""

@[grind] def Close.closing (d : Close) : Bool :=
  match d.closer with
  | .none => false
  | _ => true

@[grind] def Close.closed (d : Close) : Bool :=
  match d.closer with
  | .ended => true
  | _ => false

@[grind] def Close.past (d : Close) : Bool :=
  match d.phase with
  | .draining | .stopping | .waiting => true
  | _ => false

structure Close.Fine (s : State) (d : Close) : Prop where
  shut : d.past = true → s.gate.stopping = true ∧ d.snapshot = List.range s.created.length
  drained : d.phase = .stopping → s.gate.drained ≠ 0
  done : d.phase = .returned true → s.stopDone ≠ 0
  once : d.closing = true → s.once = true
  stopping : ∀ rest, d.closer = .stopping rest →
    (s.stops ++ rest).Perm (List.range s.created.length)
  ended : d.closer = .ended → s.stops.Perm (List.range s.created.length)

namespace Thread

def Fine (s : State) : Thread → Prop
  | .ready r => r.Fine s
  | .call c => Call.Fine s c
  | .close d => d.Fine s

@[grind] def held : Thread → Bool
  | .call c => c.held
  | _ => false

@[grind] def working : Thread → Bool
  | .call c => c.working
  | _ => false

def sending : Thread → Bool
  | .call c => c.sending
  | _ => false

@[grind] def inside : Thread → Bool
  | .ready r => r.inside
  | _ => false

@[grind] def closing : Thread → Bool
  | .close d => d.closing
  | _ => false

@[grind] def closed : Thread → Bool
  | .close d => d.closed
  | _ => false

end Thread

theorem Thread.Fine.other (h : t.Fine s) (hs : Shared s) (later : Later s s')
    (keeps : t.inside = true → Keeps s s' ∧ s'.created = s.created)
    (stops : t.closing = true → s'.stops = s.stops) : t.Fine s' := by
  cases t with
  | ready r =>
    obtain ⟨named, locked, opened, linked, missing⟩ := h
    refine ⟨named, fun hi => ?_, fun hi => ?_, fun hi => later.connected (linked hi), fun hi => ?_⟩
    · rw [(keeps hi).1.locked]
      exact locked hi
    · have hin := Ready.inside_of_setting hi
      rw [(keeps hin).1.stopping, (keeps hin).1.topic]
      exact opened hi
    · have hin : r.inside = true := by simp [Ready.inside, hi]
      rw [(keeps hin).2]
      exact missing hi
  | call c =>
    obtain ⟨sound, named, aimed⟩ := h
    refine ⟨sound, named, fun p hp => ?_⟩
    obtain ⟨hcreated, htopic, hname⟩ := aimed p hp
    refine ⟨?_, ?_, hname⟩
    · obtain ⟨more, hmore⟩ := later.created
      rw [← hmore, List.getElem?_append_left (List.getElem?_eq_some_iff.mp hcreated).1]
      exact hcreated
    · rw [later.topic (by rw [htopic]; exact hname), htopic]
  | close d =>
    obtain ⟨shut, drained, done, once, stopping, ended⟩ := h
    have frozen : d.closing = true → s'.created = s.created := fun hc =>
      later.frozen (hs.shut (once hc)).1
    refine ⟨fun hp => ?_, fun hp => ?_, fun hp => ?_, fun hc => later.once (once hc), ?_, ?_⟩
    · rw [later.frozen (shut hp).1]
      exact ⟨later.gate.stopping (shut hp).1, (shut hp).2⟩
    · have := drained hp
      have := later.gate.drained
      omega
    · have := done hp
      have := later.stopDone
      omega
    · intro rest hrest
      have hc : d.closing = true := by simp [Close.closing, hrest]
      rw [stops hc, frozen hc]
      exact stopping rest hrest
    · intro hended
      have hc : d.closing = true := by simp [Close.closing, hended]
      rw [stops hc, frozen hc]
      exact ended hended

/-! ## One move -/

/-- What a move of `t` does, to the state and seen from the other threads. -/
structure Step (s s' : State) (t t' : Thread) : Prop where
  shared : Shared s'
  fine : t'.Fine s'
  later : Later s s'
  keeps : t.inside = false → s.locked = true → Keeps s s' ∧ s'.created = s.created
  stops : t.closing = false → s'.stops = s.stops := by exact fun _ => rfl
  lock : s'.locked.toNat + t.inside.toNat = s.locked.toNat + t'.inside.toNat := by rfl
  once : s'.once.toNat + t.closing.toNat = s.once.toNat + t'.closing.toNat := by rfl
  stopDone : s'.stopDone + t.closed.toNat = s.stopDone + t'.closed.toNat := by rfl
  gate : ∀ held working, s.gate.Counts (held + t.held.toNat) (working + t.working.toNat) →
    s'.gate.Counts (held + t'.held.toNat) (working + t'.working.toNat) := by exact fun _ _ h => h

theorem Later.refl (s : State) : Later s s :=
  .of_eq (.refl _) rfl rfl rfl rfl rfl rfl rfl

theorem Step.quiet (hs : Shared s) (fine : t'.Fine s) (inside : t'.inside = t.inside)
    (closing : t'.closing = t.closing) (closed : t'.closed = t.closed) (held : t'.held = t.held)
    (working : t'.working = t.working) : Step s s t t' where
  shared := hs
  fine := fine
  later := .refl s
  keeps _ _ := ⟨⟨rfl, rfl, rfl⟩, rfl⟩
  stops _ := rfl
  lock := by rw [inside]
  once := by rw [closing]
  stopDone := by rw [closed]
  gate _ _ h := by rwa [held, working]

theorem created_of_lookup (hs : Shared s) {p : Nat} (h : s.producers.lookup a = some p) :
    s.created[p]? = some a := by
  rw [hs.producers, lookup_eq_some_iff] at h
  obtain ⟨front, back, hsplit, -⟩ := h
  have hmem : (a, p) ∈ s.created.zipIdx := by simp [hsplit]
  simpa [mk_mem_zipIdx_iff_getElem?] using hmem

theorem not_created_of_lookup (hs : Shared s) (h : (s.producers.lookup a).isSome = false) :
    a ∉ s.created := by
  intro ha
  obtain ⟨p, hp⟩ := List.getElem?_of_mem ha
  rw [isSome_eq_false_iff, isNone_iff_eq_none, hs.producers, lookup_eq_none_iff] at h
  have := h (a, p) (by simpa [mk_mem_zipIdx_iff_getElem?] using hp)
  simp at this

theorem call_step (hs : Shared s) {k : Sends.Choice Bool} {c c' : Call} (hc : Call.Fine s c)
    (hvalid : validTopic "" = false) (hmove : publish validTopic k s c = some (s', c')) :
    Step s s' (.call c) (.call c') := by
  obtain ⟨⟨g, c1⟩, hsend, hnext⟩ := map_eq_some_iff.mp hmove
  cases hnext
  obtain ⟨sound, named, aimed⟩ := hc
  have hsilent : Outcome.unknown ≠ .confirmed := by decide
  have hshut : ∀ b, ((door validTopic s c.data).admits b).isSome = true →
      s.gate.stopping = false := by
    intro b hb
    simp only [door] at hb
    grind
  obtain ⟨sound', hdata, hentered, hgate⟩ := Sends.move_gate sound hsilent hsend
  obtain ⟨hstopping, hlater⟩ := Sends.move_frame sound hsilent hsend
  have named' : c1.entered = true → c1.data.topic ≠ "" := by
    intro h
    rw [hdata]
    rcases hentered h with h | h
    · exact named h
    · intro htopic
      simp [door, htopic, hvalid] at h
  have aimed' : ∀ p, c1.target = some p →
      s.created[p]? = some c1.data.address ∧ s.topic = c1.data.topic ∧ c1.data.topic ≠ "" := by
    intro p hp
    obtain ⟨-, -, -, htarget⟩ | ⟨-, -, -, -, htarget⟩ | ⟨-, -, -, -, htarget⟩ |
      ⟨-, hadmits, -, -, -, -, hworking⟩ | ⟨-, -, -, -, -, htarget⟩ := hgate
    case inr.inr.inr.inl =>
      rw [hp] at hadmits
      simp only [door] at hadmits
      split at hadmits
      · cases hadmits
      next hopen =>
        simp only [not_or, not_not] at hopen
        rw [hdata]
        refine ⟨created_of_lookup hs hadmits, hopen.2.2.1, ?_⟩
        rw [← hdata]
        exact named' (sound'.entered_of_working hworking)
    all_goals
      rw [hdata]
      exact aimed p (htarget ▸ hp)
  exact {
    shared := ⟨hs.producers, hs.distinct, hs.linked, hs.bound, hs.single,
      fun h => ⟨hstopping.trans (hs.shut h).1, by
        have := (hs.shut h).2
        have := hlater.drained
        simp only
        omega⟩, hs.waits⟩
    fine := ⟨sound', named', aimed'⟩
    later := .of_eq hlater rfl rfl rfl rfl rfl rfl rfl
    keeps := fun _ _ => ⟨⟨rfl, hstopping, rfl⟩, rfl⟩
    gate := fun _ _ h => Sends.move_counts sound hsilent hshut h hsend }

theorem refuse_step (hs : Shared s) (hr : r.Fine s) (hin : r.inside = true) :
    Step s (refuse s r).1 (.ready r) (.ready (refuse s r).2) where
  shared := ⟨hs.producers, hs.distinct, hs.linked, hs.bound, hs.single, hs.shut, hs.waits⟩
  fine := by constructor <;> simp [refuse, Ready.inside, Ready.setting, Ready.linked]
  later := .of_eq (.refl _) rfl rfl rfl rfl rfl rfl rfl
  keeps hout := by simp [Thread.inside, hin] at hout
  stops _ := rfl
  lock := by
    have hlocked := hr.locked hin
    simp_all [refuse, Thread.inside, Ready.inside]
  gate _ _ h := h

theorem Ready.Fine.outside (hname : r.stage ≠ .checking → r.stage ≠ .returned false → r.topic ≠ "")
    (hout : r.inside = false) : r.Fine s := by
  have hin : r.inside ≠ true := by simp [hout]
  exact ⟨hname, fun h => absurd h hin, fun h => absurd (inside_of_setting h) hin,
    fun h => absurd (inside_of_setting (setting_of_linked h)) hin,
    fun h => absurd (by simp [Ready.inside, h]) hin⟩

theorem ready_step (hs : Shared s) {r' : Ready} (hr : r.Fine s) (hvalid : validTopic "" = false)
    (hmove : r.move validTopic k s = some (s', r')) : Step s s' (.ready r) (.ready r') := by
  have hfine := hr
  obtain ⟨named, locked, opened, linked, missing⟩ := hr
  unfold Ready.move at hmove
  split at hmove
  case h_1 =>
    cases hmove
    exact .quiet hs ⟨named, locked, opened, linked, missing⟩ rfl rfl rfl rfl rfl
  case h_2 hstage =>
    cases hmove
    have hout : r.inside = false := by simp [Ready.inside, hstage]
    refine .quiet hs (.outside (fun _ hok htopic => ?_) (by split <;> rfl))
      (by split <;> exact hout.symm) rfl rfl rfl rfl
    simp [show r.topic = "" from htopic, hvalid] at hok
  case h_3 hstage =>
    cases hmove
    have hout : r.inside = false := by simp [Ready.inside, hstage]
    have hname := named (by simp [hstage]) (by simp [hstage])
    exact .quiet hs (.outside (fun _ _ => hname) (by split <;> rfl))
      (by split <;> exact hout.symm) rfl rfl rfl rfl
  case h_4 hstage =>
    have hout : r.inside = false := by simp [Ready.inside, hstage]
    have hname := named (by simp [hstage]) (by simp [hstage])
    split at hmove
    · cases hmove
    next hfree =>
      cases hmove
      exact {
        shared := ⟨hs.producers, hs.distinct, hs.linked, hs.bound, hs.single, hs.shut, hs.waits⟩
        fine := ⟨fun _ _ => hname, fun _ => rfl, by simp [Ready.setting], by simp [Ready.linked],
          by simp⟩
        later := .of_eq (.refl _) rfl rfl rfl rfl rfl rfl rfl
        keeps := fun _ hlocked => absurd hlocked hfree
        lock := by simp [Thread.inside, hstage, hfree, Ready.inside] }
  case h_5 hstage =>
    have hout : r.inside = false := by simp [Ready.inside, hstage]
    obtain ⟨-, hnext⟩ := ite_none_right_eq_some.mp hmove
    cases hnext
    exact .quiet hs (.outside (fun _ h => absurd rfl h) rfl) hout.symm rfl rfl rfl rfl
  case h_6 hstage =>
    split at hmove
    · cases hmove
      exact refuse_step hs hfine (by simp [Ready.inside, hstage])
    next hopen =>
      cases hmove
      have hin : r.inside = true := by simp [Ready.inside, hstage]
      have hname := named (by simp [hstage]) (by simp [hstage])
      have hgate : s.gate.stopping = false ∧ (s.topic = "" ∨ s.topic = r.topic) := by
        simp only [not_or, not_and, not_not, Bool.not_eq_true] at hopen
        exact ⟨hopen.2.1, (em (s.topic = "")).imp id hopen.2.2⟩
      exact .quiet hs ⟨fun _ _ => hname, fun _ => locked hin, fun _ => hgate,
        by simp [Ready.linked], by simp⟩ hin.symm rfl rfl rfl rfl
  case h_7 ok hstage =>
    have hin : r.inside = true := by simp [Ready.inside, hstage]
    have hname := named (by simp [hstage]) (by simp [hstage])
    split at hmove
    · cases hmove
      exact {
        shared := ⟨hs.producers, hs.distinct, fun a ha => mem_append_left _ (hs.linked a ha),
          hs.bound, hs.single, hs.shut, hs.waits⟩
        fine := ⟨fun _ _ => hname, fun _ => locked hin,
          fun _ => opened (by simp [Ready.setting, hstage]), fun _ => by simp, by simp⟩
        later := { Later.refl s with connected := subset_append_left _ _ }
        keeps := fun hout => by simp [Thread.inside, hin] at hout
        lock := by simp [Thread.inside, hstage, Ready.inside] }
    · cases hmove
      exact refuse_step hs hfine (by simp [Ready.inside, hstage])
  case h_8 hstage =>
    split at hmove
    · cases hmove
      exact refuse_step hs hfine (by simp [Ready.inside, hstage])
    · cases hmove
      have hin : r.inside = true := by simp [Ready.inside, hstage]
      have hname := named (by simp [hstage]) (by simp [hstage])
      have hgate := opened (by simp [Ready.setting, hstage])
      have hlink := linked (by simp [Ready.linked, hstage])
      refine .quiet hs ⟨fun _ _ => hname, fun _ => locked hin, fun _ => hgate, fun _ => hlink,
        fun hcreating => not_created_of_lookup hs ?_⟩ (by split <;> exact hin.symm) rfl rfl rfl rfl
      simpa only [ite_eq_right_iff, reduceCtorEq, imp_false, Bool.not_eq_true] using hcreating
  case h_9 ok hstage =>
    split at hmove
    · cases hmove
      have hin : r.inside = true := by simp [Ready.inside, hstage]
      have hname := named (by simp [hstage]) (by simp [hstage])
      have hnew := missing hstage
      have hgate := opened (by simp [Ready.setting, hstage])
      have hlink := linked (by simp [Ready.linked, hstage])
      exact {
        shared := by
          refine ⟨?_, ?_, ?_, hs.bound, hs.single, hs.shut, hs.waits⟩
          · simp [hs.producers, zipIdx_append]
          · simpa using hs.distinct.concat hnew
          · simpa [or_imp, forall_and, hlink] using hs.linked
        fine := ⟨fun _ _ => hname, fun _ => locked hin, fun _ => hgate, fun _ => hlink, by simp⟩
        later := { Later.refl s with
          created := prefix_append _ _
          frozen := fun h => by simp [hgate.1] at h }
        keeps := fun hout => by simp [Thread.inside, hin] at hout
        lock := by simp [Thread.inside, hstage, Ready.inside] }
    · cases hmove
      exact refuse_step hs hfine (by simp [Ready.inside, hstage])
  case h_10 hstage =>
    split at hmove
    · cases hmove
      exact refuse_step hs hfine (by simp [Ready.inside, hstage])
    · cases hmove
      have hin : r.inside = true := by simp [Ready.inside, hstage]
      have htopic := (opened (by simp [Ready.setting, hstage])).2
      have hname := named (by simp [hstage]) (by simp [hstage])
      exact {
        shared := by
          refine ⟨hs.producers, hs.distinct, hs.linked, ?_, ?_, hs.shut, hs.waits⟩
          · simp
          · intro t ht
            rcases mem_append.mp ht with ht | ht
            · obtain ⟨rfl, hne⟩ := hs.single t ht
              exact ⟨htopic.resolve_left hne, hne⟩
            · obtain rfl := mem_singleton.mp ht
              exact ⟨rfl, hname⟩
        fine := .outside (fun _ _ => hname) rfl
        later := { Later.refl s with
          topic := fun h => by
            rcases htopic with htopic | htopic
            · exact absurd htopic h
            · exact htopic.symm
          readied := subset_append_left _ _ }
        keeps := fun hout => by simp [Thread.inside, hin] at hout
        lock := by simp [Thread.inside, hstage, locked hin, Ready.inside] }
  case h_11 => cases hmove

theorem close_step (hs : Shared s) {d d' : Close} (hd : d.Fine s)
    (hmove : d.move k s = some (s', d')) : Step s s' (.close d) (.close d') := by
  obtain ⟨shut, drained, done, once, stopping, ended⟩ := hd
  unfold Close.move at hmove
  split at hmove
  case h_1 =>
    cases hmove
    exact .quiet hs ⟨shut, drained, done, once, stopping, ended⟩ rfl rfl rfl rfl rfl
  case h_2 hphase =>
    cases hmove
    exact {
      shared := ⟨hs.producers, hs.distinct, hs.linked, hs.bound, hs.single, hs.shut, hs.waits⟩
      fine := ⟨by simp [Close.past], by simp, by simp, once, stopping, ended⟩
      later := .of_eq (.refl _) rfl rfl rfl rfl rfl rfl rfl
      keeps := fun _ _ => ⟨⟨rfl, rfl, rfl⟩, rfl⟩ }
  case h_3 hphase =>
    split at hmove
    · cases hmove
    next hfree =>
      cases hmove
      have hsnapshot : s.producers.map Prod.snd = List.range s.created.length := by
        rw [hs.producers, zipIdx_map_snd, range_eq_range']
      have hlater := @Gate.later_shut s.gate
      have hshut := @Gate.shut_stopping s.gate
      exact {
        shared := ⟨hs.producers, hs.distinct, hs.linked, hs.bound, hs.single,
          fun h => ⟨hshut, by
            have := (hs.shut h).2
            have := hlater.drained
            simp only
            omega⟩, hs.waits⟩
        fine := ⟨fun _ => ⟨hshut, hsnapshot⟩, by simp, by simp, once, stopping, ended⟩
        later := .of_eq hlater rfl rfl rfl rfl rfl rfl rfl
        keeps := fun _ hlocked => absurd hlocked hfree
        gate := fun _ _ h => h.shut }
  case h_4 | h_6 | h_9 =>
    obtain ⟨-, hnext⟩ := ite_none_right_eq_some.mp hmove
    cases hnext
    exact .quiet hs ⟨by simp [Close.past], by simp, by simp, once, stopping, ended⟩
      rfl rfl rfl rfl rfl
  case h_5 hphase =>
    obtain ⟨hdrained, hnext⟩ := ite_none_right_eq_some.mp hmove
    cases hnext
    have hshut := shut (by simp [Close.past, hphase])
    exact .quiet hs ⟨fun _ => hshut, fun _ => hdrained, by simp, once, stopping, ended⟩
      rfl rfl rfl rfl rfl
  case h_8 hphase =>
    obtain ⟨hdone, hnext⟩ := ite_none_right_eq_some.mp hmove
    cases hnext
    exact .quiet hs ⟨by simp [Close.past], by simp, fun _ => hdone, once, stopping, ended⟩
      rfl rfl rfl rfl rfl
  case h_7 hphase =>
    cases hmove
    obtain ⟨hshut, hsnapshot⟩ := shut (by simp [Close.past, hphase])
    have hdrained := drained hphase
    cases honce : s.once with
    | true =>
      have hsame : ({ s with once := true } : State) = s := by rw [← honce]
      rw [if_pos rfl, hsame]
      exact .quiet hs ⟨fun _ => ⟨hshut, hsnapshot⟩, by simp, by simp, once, stopping, ended⟩
        rfl rfl rfl rfl rfl
    | false =>
      -- The first `Close` to come here starts the goroutine, for the producers of its snapshot.
      have hcloser : d.closer = .none := by
        cases hcloser : d.closer with
        | none => rfl
        | stopping rest => simp [once (by simp [Close.closing, hcloser])] at honce
        | ended => simp [once (by simp [Close.closing, hcloser])] at honce
      exact {
        shared := ⟨hs.producers, hs.distinct, hs.linked, hs.bound, hs.single,
          fun _ => ⟨hshut, hdrained⟩, by simp⟩
        fine := ⟨fun _ => ⟨hshut, hsnapshot⟩, by simp, by simp, fun _ => rfl,
          by simp [hs.waits honce, hsnapshot], by simp⟩
        later := { Later.refl s with once := fun _ => rfl }
        keeps := fun _ _ => ⟨⟨rfl, rfl, rfl⟩, rfl⟩
        once := by simp [Thread.closing, hcloser, honce, Close.closing]
        stopDone := by simp [Thread.closed, hcloser, Close.closed] }
  case h_10 i rest hcloser =>
    obtain ⟨p, hp, hnext⟩ := map_eq_some_iff.mp hmove
    cases hnext
    have honce := once (by simp [Close.closing, hcloser])
    have hpick : (s.stops ++ [p] ++ rest.eraseIdx i).Perm (s.stops ++ rest) := by
      obtain ⟨hi, rfl⟩ := List.getElem?_eq_some_iff.mp hp
      rw [append_assoc]
      exact (getElem_cons_eraseIdx_perm hi).append_left s.stops
    have hperm := hpick.trans (stopping rest hcloser)
    exact {
      shared := ⟨hs.producers, hs.distinct, hs.linked, hs.bound, hs.single, hs.shut,
        fun h => by simp [honce] at h⟩
      fine := ⟨shut, drained, done, fun _ => honce, fun _ h => Closer.stopping.inj h ▸ hperm,
        by simp⟩
      later := { Later.refl s with stops := prefix_append _ _ }
      keeps := fun _ _ => ⟨⟨rfl, rfl, rfl⟩, rfl⟩
      stops := fun hc => by simp [Thread.closing, Close.closing, hcloser] at hc
      once := by simp [Thread.closing, Close.closing, hcloser]
      stopDone := by simp [Thread.closed, Close.closed, hcloser] }
  case h_11 hcloser =>
    cases hmove
    have honce := once (by simp [Close.closing, hcloser])
    have hperm := stopping [] hcloser
    rw [append_nil] at hperm
    exact {
      shared := ⟨hs.producers, hs.distinct, hs.linked, hs.bound, hs.single, hs.shut, hs.waits⟩
      fine := ⟨shut, drained, fun _ => Nat.succ_ne_zero _, fun _ => honce, by simp, fun _ => hperm⟩
      later := { Later.refl s with stopDone := Nat.le_succ _ }
      keeps := fun _ _ => ⟨⟨rfl, rfl, rfl⟩, rfl⟩
      once := by simp [Thread.closing, Close.closing, hcloser]
      stopDone := by simp [Thread.closed, Close.closed, hcloser] }
  case h_12 => cases hmove

/-! ## All threads together -/

structure Sound (maxInFlight : Nat) (s : State) (pool : Multiset Thread) : Prop where
  cap : s.gate.cap = maxInFlight
  gate : s.gate.Counts (tally Thread.held pool) (tally Thread.working pool)
  shared : Shared s
  threads : ∀ t ∈ pool, t.Fine s
  lock : tally Thread.inside pool = s.locked.toNat
  once : tally Thread.closing pool = s.once.toNat
  stopDone : s.stopDone = tally Thread.closed pool

theorem Sound.step (h : Sound maxInFlight s (t ::ₘ others)) (hstep : Step s s' t t') :
    Sound maxInFlight s' (t' ::ₘ others) := by
  obtain ⟨cap, gate, shared, threads, lock, once, stopDone⟩ := h
  have hothers : ∀ u ∈ others, u.Fine s' := by
    intro u hu
    refine (threads u (Multiset.mem_cons_of_mem hu)).other shared hstep.later ?_ ?_
    · intro hin
      -- The mutex has one holder, so the thread that moved was not inside.
      have hlocked : s.locked = true := by
        cases u with
        | ready r => exact (threads _ (Multiset.mem_cons_of_mem hu)).locked hin
        | call c => cases hin
        | close d => cases hin
      have hout : t.inside = false := by
        by_contra ht
        have := Threads.tally_alone lock (by simpa using ht) u hu
        simp_all
      exact hstep.keeps hout hlocked
    · intro hclosing
      have hout : t.closing = false := by
        by_contra ht
        have := Threads.tally_alone once (by simpa using ht) u hu
        simp_all
      exact hstep.stops hout
  rw [tally_cons] at lock once stopDone
  rw [tally_cons, tally_cons] at gate
  refine ⟨hstep.later.gate.cap.trans cap, ?_, hstep.shared, ?_, ?_, ?_, ?_⟩
  · rw [tally_cons, tally_cons]
    exact hstep.gate _ _ gate
  · intro u hu
    rcases Multiset.mem_cons.mp hu with rfl | hu
    · exact hstep.fine
    · exact hothers u hu
  · have := hstep.lock
    rw [tally_cons]
    omega
  · have := hstep.once
    rw [tally_cons]
    omega
  · have := hstep.stopDone
    rw [tally_cons]
    omega

theorem Sound.move (hvalid : validTopic "" = false) (h : Sound maxInFlight s (t ::ₘ others))
    (hmove : (handoff validTopic).move k s t = some (s', t')) :
    Sound maxInFlight s' (t' ::ₘ others) ∧ Later s s' := by
  have hfine := h.threads t (Multiset.mem_cons_self _ _)
  suffices hstep : Step s s' t t' from ⟨h.step hstep, hstep.later⟩
  cases t with
  | ready r =>
    obtain ⟨⟨s1, r'⟩, hr, hnext⟩ := map_eq_some_iff.mp hmove
    cases hnext
    exact ready_step h.shared hfine hvalid hr
  | call c =>
    cases k with
    | go k =>
      obtain ⟨⟨s1, c'⟩, hc, hnext⟩ := map_eq_some_iff.mp hmove
      cases hnext
      exact call_step h.shared hfine hvalid hc
    | connect ok => cases hmove
    | create ok => cases hmove
    | next i => cases hmove
  | close d =>
    obtain ⟨⟨s1, d'⟩, hd, hnext⟩ := map_eq_some_iff.mp hmove
    cases hnext
    exact close_step h.shared hfine hd

theorem Sound.call (h : Sound maxInFlight s others) (a : Op) :
    Sound maxInFlight s ((handoff validTopic).start a ::ₘ others) := by
  have hnew : ((handoff validTopic).start a).Fine s := by
    cases a with
    | ready address topic =>
      constructor <;> simp [Ready.inside, Ready.setting, Ready.linked]
    | publish address topic body =>
      exact ⟨.arrived _, by simp [Sends.Call.entered], by simp⟩
    | close => constructor <;> simp [Close.past, Close.closing]
  have hzero : ((handoff validTopic).start a).held = false ∧
      ((handoff validTopic).start a).working = false ∧
      ((handoff validTopic).start a).inside = false ∧
      ((handoff validTopic).start a).closing = false ∧
      ((handoff validTopic).start a).closed = false := by
    cases a <;> exact ⟨rfl, rfl, rfl, rfl, rfl⟩
  obtain ⟨hheld, hworking, hinside, hclosing, hclosed⟩ := hzero
  refine ⟨h.cap, ?_, h.shared, ?_, ?_, ?_, ?_⟩
  · simpa [hheld, hworking] using h.gate
  · intro t ht
    rcases Multiset.mem_cons.mp ht with rfl | ht
    · exact hnew
    · exact h.threads t ht
  · simpa [hinside] using h.lock
  · simpa [hclosing] using h.once
  · simpa [hclosed] using h.stopDone

/-! ## The promise -/

/-- What the handoff promises, in the words of its users. -/
structure Safe (maxInFlight : Nat) (s : State) (pool : Multiset Thread) : Prop where
  /-- From its admission on: the producer, the consumer's connection and the bound topic. -/
  admitted : ∀ x, .call x ∈ pool → x.worker ≠ .none → ∃ p, x.target = some p ∧
    (∀ q, s.created[q]? = some x.data.address ↔ q = p) ∧ x.data.address ∈ s.connected ∧
    x.data.topic ∈ s.readied ∧ ∀ t ∈ s.readied, t = x.data.topic
  confirmed : ∀ x, .call x ∈ pool → x.caller = .returned .confirmed →
    x.worker ≠ .none ∧ x.reply = some false
  inFlight : tally Thread.sending pool ≤ maxInFlight
  drained : s.gate.drained ≤ 1
  stopDone : s.stopDone ≤ 1
  /-- Every producer ever created is stopped exactly once. -/
  closed : ∀ d, .close d ∈ pool → d.phase = .returned true →
    s.stops.Perm (List.range s.created.length)
  quiet : s.stops ≠ [] → ∀ x, .call x ∈ pool → x.worker ≠ .ready ∧ x.sending = false

theorem Sound.quiet (h : Sound maxInFlight s pool) (hstops : s.stops ≠ []) {x : Call}
    (hx : .call x ∈ pool) : x.worker ≠ .ready ∧ x.sending = false := by
  have honce : s.once = true := by
    by_contra hnot
    exact hstops (h.shared.waits (by simpa using hnot))
  have hidle := Threads.tally_eq_zero.mp (h.gate.of_drained (h.shared.shut honce).2).2 _ hx
  constructor
  · intro hready
    simp [Thread.working, Sends.Call.working, hready, Sends.Worker.counted] at hidle
  · by_contra hsending
    simp [Thread.working, Sends.Call.working_of_sending (by simpa using hsending)] at hidle

theorem Sound.safe (h : Sound maxInFlight s pool) : Safe maxInFlight s pool := by
  have hclosed : tally Thread.closed pool ≤ tally Thread.closing pool := by
    refine Threads.tally_mono fun t _ ht => ?_
    cases t <;> grind
  have hbit := Bool.toNat_le s.once
  refine ⟨?_, ?_, ?_, h.gate.drained_le, ?_, ?_, fun hstops x hx => h.quiet hstops hx⟩
  · intro x hx hworker
    have hfine : Call.Fine s x := h.threads _ hx
    obtain ⟨p, hp⟩ := isSome_iff_exists.mp (hfine.sound.aimed hworker)
    obtain ⟨hcreated, htopic, hname⟩ := hfine.aimed p hp
    have hsingle : ∀ q, s.created[q]? = some x.data.address ↔ q = p := by
      intro q
      refine ⟨fun hq => ?_, fun hq => hq ▸ hcreated⟩
      obtain ⟨hlt, -⟩ := List.getElem?_eq_some_iff.mp hq
      exact (List.getElem?_inj hlt h.shared.distinct).mp (hq.trans hcreated.symm)
    refine ⟨p, hp, hsingle, h.shared.linked _ (mem_of_getElem? hcreated), ?_, ?_⟩
    · rw [← htopic]
      exact h.shared.bound (by rw [htopic]; exact hname)
    · intro t ht
      rw [← htopic]
      exact (h.shared.single t ht).1
  · intro x hx hcaller
    have hfine : Call.Fine s x := h.threads _ hx
    rcases hfine.sound.returns .confirmed hcaller with hsilent | ⟨hworker, failed, hreply, hsent⟩
    · exact absurd rfl hsilent
    · refine ⟨by grind, ?_⟩
      cases failed with
      | false => exact hreply
      | true => cases hsent
  · have hheld : tally Thread.sending pool ≤ tally Thread.held pool := by
      refine Threads.tally_mono fun t _ ht => ?_
      cases t with
      | call c => exact Sends.Call.held_of_sending ht
      | ready r => cases ht
      | close d => cases ht
    calc tally Thread.sending pool ≤ tally Thread.held pool := hheld
      _ = s.gate.slots := h.gate.slots.symm
      _ ≤ s.gate.cap := h.gate.bounded
      _ = maxInFlight := h.cap
  · have := h.once
    rw [h.stopDone]
    omega
  · intro d hd hphase
    -- `stopDone` is closed, so some goroutine has stopped all the producers.
    have hdone : s.stopDone ≠ 0 := (h.threads _ hd : d.Fine s).done hphase
    rw [h.stopDone, ne_eq, Threads.tally_eq_zero] at hdone
    simp only [not_forall, Bool.not_eq_false] at hdone
    obtain ⟨t, ht, hended⟩ := hdone
    cases t with
    | close d' => exact (h.threads _ ht : d'.Fine s).ended (by grind)
    | ready r => cases hended
    | call c => cases hended

/-- The direct handoff in every interleaving of `Ready`, `Publish` and `Close`; once a producer has
been stopped, no later configuration has a publish that runs or is about to. -/
theorem handoff_is_safe (hvalid : validTopic "" = false) (maxInFlight : Nat)
    {c : Threads.Conf State Thread} (hc : (handoff validTopic).Reaches (opened maxInFlight) c) :
    Safe maxInFlight c.shared c.pool ∧
      ∀ c', (handoff validTopic).Leads c c' → c.shared.stops ≠ [] →
        ∀ x, .call x ∈ c'.pool → x.worker ≠ .ready ∧ x.sending = false := by
  have hsound : Sound maxInFlight c.shared c.pool := by
    refine Threads.Leads.invariant (fun s others a h => h.call a)
      (fun s t others k s' t' h hmove => (h.move hvalid hmove).1) hc ?_
    exact ⟨rfl, Gate.counts_open _, ⟨rfl, nodup_nil, by simp [opened], by simp [opened],
      by simp [opened], by simp [opened], fun _ => rfl⟩, by simp, rfl, rfl, rfl⟩
  refine ⟨hsound.safe, fun c' hlead hstops x hx => ?_⟩
  have hlater : Sound maxInFlight c'.shared c'.pool ∧ c'.shared.stops ≠ [] := by
    refine Threads.Leads.invariant (I := fun s pool => Sound maxInFlight s pool ∧ s.stops ≠ [])
      (fun s others a h => ⟨h.1.call a, h.2⟩) (fun s t others k s' t' h hmove => ?_) hlead
      ⟨hsound, hstops⟩
    obtain ⟨hnext, hlater⟩ := h.1.move hvalid hmove
    refine ⟨hnext, fun hnil => h.2 ?_⟩
    have hprefix := hlater.stops
    rw [hnil] at hprefix
    exact prefix_nil.mp hprefix
  exact hlater.1.quiet hlater.2 (by simpa using hx)

namespace Sample

/-- A handoff from connecting to closing: `Ready`, a confirmed `Publish`, `Close`. -/
def handedOver : List (Threads.Turn Op Choice) :=
  [.call (.ready "nsqd:4150" "failed"), .move 0 (.go .step), .move 0 (.go .step),
    .move 0 (.go .step), .move 0 (.go .step), .move 0 (.connect true), .move 0 (.go .step),
    .move 0 (.create true), .move 0 (.go .step),
    .call (.publish "nsqd:4150" "failed" [1]), .move 1 (.go .step), .move 1 (.go .slot),
    .move 1 (.go .step), .move 1 (.go .work), .move 1 (.go (.reply false)), .move 1 (.go .work),
    .move 1 (.go .done), .move 1 (.go .work), .move 1 (.go .work),
    .call .close, .move 2 (.go .step), .move 2 (.go .step), .move 2 (.go .done),
    .move 2 (.go .step), .move 2 (.next 0), .move 2 (.go .work), .move 2 (.go .done)]

end Sample

theorem handoff_is_safe_handed_over :
    ∃ c, (handoff (· ≠ "")).Reaches (opened 1) c ∧ Safe 1 c.shared c.pool ∧
      (∃ x, .call x ∈ c.pool ∧ x.caller = .returned .confirmed ∧ x.reply = some false) ∧
      (∃ d, .close d ∈ c.pool ∧ d.phase = .returned true ∧ c.shared.stops.Perm [0]) := by
  have hrun : (handoff (· ≠ "")).Reaches (opened 1) _ := ⟨Sample.handedOver, rfl⟩
  obtain ⟨hsafe, -⟩ := handoff_is_safe (by decide) 1 hrun
  exact ⟨_, hrun, hsafe,
    ⟨_, mem_of_getElem? (i := 1) rfl, rfl,
      (hsafe.confirmed _ (Multiset.mem_coe.mpr (mem_of_getElem? (i := 1) rfl)) rfl).2⟩,
    ⟨_, mem_of_getElem? (i := 2) rfl, rfl,
      hsafe.closed _ (Multiset.mem_coe.mpr (mem_of_getElem? (i := 2) rfl)) rfl⟩⟩

end ReliableMessaging.Transport.DirectHandoff
