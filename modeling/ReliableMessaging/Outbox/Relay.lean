import ReliableMessaging.Outbox.MySql

/-!
# The relay

`relay.deliver`: publish the claim's message, then write back what came of it,
once. A relay observes events on the way; they decide nothing and are not
here. `Run` starts one `deliver` for each claim that its `ClaimDue` returned.
-/

namespace ReliableMessaging.Outbox

open TxLang

structure RetryDecision where
  delay : Int
  quarantine : Bool

/-- `RetryPolicy`, which the host supplies. -/
abbrev RetryPolicy : Type := Claim → Outcome → RetryDecision

/-- The second half of `deliver`: settle the claim by the outcome. -/
def writeBack (policy : RetryPolicy) (c : Claim) (outcome : Outcome) :
    MySql.OutboxCode Answer Unit :=
  if outcome = .confirmed then MySql.confirm c
  else
    let decision := policy c outcome
    let code := if outcome = .rejected then "publish_rejected" else "publish_unknown"
    if decision.quarantine then MySql.quarantine c code
    else if decision.delay ≤ 0 then
      throw (.invalid "retry policy requires positive delay or explicit quarantine")
    else MySql.retry c decision.delay code

/-- `deliver`. A publisher that does not return is a relay that has stopped. -/
def deliver (policy : RetryPolicy) (c : Claim) : Prog (Val MySql.Id) Answer Unit :=
  (ask (Event.publish c)).bind fun raw =>
    ignore (writeBack policy c (Outcome.ofRaw (raw.getD 0))).run

end ReliableMessaging.Outbox
