import ReliableMessaging.Outbox.Form
import ReliableMessaging.Outbox.Turns.Mongo

/-!
# A due record is passed by once by each other

The claim loop of the relays, in time. A scan takes the first records that are
due; what it takes becomes due again only when its lease has ended, so after
the scan's own clock reading, and a retry puts a record after the clock too.
Hence a record that is due and unlocked is overtaken by every other record at
most once, and by no more than the limits of the scans allow.
-/

namespace ReliableMessaging.Outbox

open TxLang

/-- **Bounded bypass.** In every run of relays over the MySQL or the Mongo
outbox, with a clock that never goes back: a record that is due, and whose row
no other transaction holds when a scan runs, is passed by at most once by every
other record, and is selected once the limits of the scans that have started
since and have returned add up to the number of records. -/
theorem bypass_is_bounded (H : Sha256) :
    (∀ (s0 s1 : Relays MySql.Id) commits k (r : Record),
      Reached .readCommitted (MySql.relayCode H) s0 →
      s0.db.lookup (.record k) = some r → r.due s0.clock = true →
      RunsPast .readCommitted (MySql.relayCode H) k s0 commits s1 →
      BypassBounded MySql.selects k s0 commits s1) ∧
    ∀ B (s0 s1 : Relays (Mongo.Id B)) commits k (r : Record),
      Reached .snapshot (Mongo.relayCode B H) s0 →
      s0.db.lookup (.record k) = some r → Mongo.dueFilter s0.clock r = true →
      RunsPast .snapshot (Mongo.relayCode B H) k s0 commits s1 →
      BypassBounded Mongo.selects k s0 commits s1 := by
  constructor
  · intro s0 s1 commits k r hreach hstored hdue hruns
    exact (MySql.scanner H).bypassBounded hreach hstored (claimable_of_due hdue)
      (MySql.ripe_of_due hdue) hruns
  · intro B s0 s1 commits k r hreach hstored hdue hruns
    exact (Mongo.scanner B H).bypassBounded hreach hstored (Mongo.claimable_of_dueFilter hdue)
      (fun _ => Mongo.ripe_of_dueFilter hdue) hruns

namespace Sample

def waiting : Record where
  input := message.input
  fingerprint := message.fingerprint default
  nextAttemptAt := 3
  createdAt := 1
  updatedAt := 1

def queue : Table MySql.Id :=
  AList.insert (.record (MySql.Id.next 1)) waiting
    (AList.singleton (.record (MySql.Id.next 2)) waiting)

def scanOne : RelayCall := .claimDue 1 1000

theorem queue_aligned : Aligned queue := by
  intro k r hr hs
  have hwaiting : r = waiting := by
    by_cases hk : k = MySql.Id.next 1
    · subst hk
      exact (Option.some.inj ((AList.lookup_insert _).symm.trans hr)).symm
    · rw [queue, AList.lookup_insert_ne fun heq => hk (Row.record.inj heq)] at hr
      by_cases hk' : k = MySql.Id.next 2
      · subst hk'
        exact (Option.some.inj ((lookup_singleton_self _ _).symm.trans hr)).symm
      · rw [lookup_singleton_ne _ fun heq => hk' (Row.record.inj heq)] at hr
        cases hr
  rw [hwaiting] at hs
  cases hs

end Sample

open Sample

set_option maxRecDepth 100000 in
/-- Two scans for one record each, at one time: the second one finds the second
record, which the first has passed by. -/
theorem bypass_is_bounded_second :
    ∃ (s1 : Relays MySql.Id) (commits : List (RelayCommit MySql.Id RelayCall)),
      RunsPast .readCommitted (MySql.relayCode default) (MySql.Id.next 2) (.start 5 queue)
        commits s1 ∧
      BypassBounded MySql.selects (MySql.Id.next 2) (.start 5 queue) commits s1 ∧
      ∃ c ∈ commits, MySql.selects c (MySql.Id.next 2) = true := by
  have hallow : ∀ st, Passable (MySql.Id.next 2) [] st := fun _ _ _ => List.not_mem_nil
  have hidle : (Timed.Sys.start 5 queue : Relays MySql.Id).Idle := ⟨rfl, nofun⟩
  obtain ⟨first, hfirst, hidle1⟩ := hidle.serve .readCommitted (MySql.relayCode default) hallow
    (w := world 5) (p := 0) rfl rfl scanOne (by decide +kernel)
  obtain ⟨second, hsecond, _⟩ := hidle1.serve .readCommitted (MySql.relayCode default) hallow
    (w := world 5) (p := 1) rfl rfl scanOne (by decide +kernel)
  have hruns := hfirst.trans (fun _ _ h => h) hsecond
  have hbounded := (bypass_is_bounded default).1 _ _ _ (MySql.Id.next 2) waiting
    ⟨5, queue, [], queue_aligned, .refl⟩ (by decide +kernel) (by decide +kernel) hruns
  refine ⟨_, _, hruns, hbounded,
    hbounded.enough [(0, 1), (1, 1)] (by decide) ?_ (by decide +kernel)⟩
  simp only [List.forall_mem_cons, List.not_mem_nil, false_imp_iff, implies_true, and_true]
  have hret : ∀ {a : Option Err}, a = none →
      some (Prog.ret a : Prog (Val MySql.Id) Answer (Option Err)) = some (.ret none) :=
    fun h => by rw [h]
  exact ⟨⟨rfl, 1000, _, rfl, rfl, hret (by decide +kernel)⟩,
    ⟨rfl, 1000, _, rfl, rfl, hret (by decide +kernel)⟩⟩

end ReliableMessaging.Outbox
