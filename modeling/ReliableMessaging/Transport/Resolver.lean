import ReliableMessaging.Transport.Routing

/-!
# What an accepted list of routes promises

Names of the first two generations hold an underscore and readable names do
not, so a broker topic tells its naming scheme. With the tables of the two
loops that makes a broker topic tell the whole route key, in one list as in
the other, whatever the digest function does.
-/

namespace ReliableMessaging.Transport

open Loops List Function

/-! ## Names tell their scheme -/

def underscore : UInt8 := '_'.toUInt8

variable {field name : Bytes} {fields : List Bytes}

theorem underscore_notMem_of_readableRest {token : Bool} (h : readableRest token field = true) :
    underscore ∉ field := by
  induction field generalizing token with
  | nil => simp
  | cons b rest ih =>
    unfold readableRest at h
    have hb : underscore ≠ b := by
      rintro rfl
      have hneither : isAlnum underscore = false ∧ isSeparator underscore = false := by decide
      simp [hneither] at h
    split at h
    · simp [hb, ih h]
    · simp only [Bool.and_eq_true] at h
      simp [hb, ih h.2]

theorem underscore_notMem_readablePart (h : underscore ∉ field) :
    underscore ∉ readablePart field := by
  simp only [readablePart, mem_map, not_exists, not_and]
  intro b hb
  split
  · decide
  · rintro rfl
    exact h hb

theorem mem_intercalate {α : Type} {a : α} {sep : List α} {parts : List (List α)}
    (h : a ∈ sep.intercalate parts) : a ∈ sep ∨ ∃ part ∈ parts, a ∈ part := by
  match parts with
  | [] => simp at h
  | [part] => exact .inr ⟨part, by simpa using h⟩
  | part :: next :: rest =>
    rw [intercalate_cons_cons, mem_append, mem_append] at h
    rcases h with (h | h) | h
    · exact .inr ⟨part, by simp, h⟩
    · exact .inl h
    · rcases mem_intercalate h with h | ⟨other, hother, h⟩
      · exact .inl h
      · exact .inr ⟨other, by simp [mem_cons.mp hother], h⟩

theorem readableName_ok (h : readableName fields = .ok name) :
    (∀ field ∈ fields, readableField field = true) ∧
      name = (utf8 "--").intercalate (fields.map readablePart) := by
  unfold readableName at h
  split at h
  · cases h
  next hall =>
    simp only at h
    split at h
    · cases h
    · cases h
      simp only [Bool.not_eq_true, Bool.not_eq_false', all_eq_true] at hall
      exact ⟨hall, rfl⟩

theorem underscore_notMem_readableName (h : readableName fields = .ok name) :
    underscore ∉ name := by
  obtain ⟨hfields, rfl⟩ := readableName_ok h
  intro hmem
  rcases mem_intercalate hmem with hsep | ⟨part, hpart, hmem⟩
  · exact absurd hsep (by decide)
  · obtain ⟨field, hfield, rfl⟩ := mem_map.mp hpart
    exact underscore_notMem_readablePart
      (underscore_notMem_of_readableRest (hfields field hfield)) hmem

section Digests

variable {sha256 : Bytes → Bytes}

/-- A row that carries the names its other fields determine. -/
structure Canonical (sha256 : Bytes → Bytes) (r : RouteBinding) : Prop where
  physical : expectedPhysicalTopic sha256 r.topic r.messageType r.owner r.routeRevision
    r.namingScheme = .ok r.physicalTopic
  group : expectedConsumerGroup sha256 r = .ok r.consumerGroup

theorem expectedPhysicalTopic_underscore {topic messageType owner revision scheme name : Bytes}
    (h : expectedPhysicalTopic sha256 topic messageType owner revision scheme = .ok name) :
    (scheme = readableNamingV1 ∧ underscore ∉ name) ∨ (scheme = [] ∧ underscore ∈ name) := by
  unfold expectedPhysicalTopic at h
  split at h
  next hreadable =>
    left
    refine ⟨hreadable, ?_⟩
    unfold physicalTopicV3 at h
    split at h
    · exact underscore_notMem_readableName h
    · split at h
      · exact underscore_notMem_readableName h
      · cases h
  next =>
    split at h
    next hscheme =>
      right
      refine ⟨hscheme, ?_⟩
      split at h
      · split at h
        · cases h
        · cases h
          exact mem_append_left _ (by decide)
      · unfold physicalTopicV2 at h
        split at h
        · cases h
        · cases h
          exact mem_append_left _ (by decide)
    next => cases h

namespace Canonical

variable {a b : RouteBinding}

theorem scheme_eq (ha : Canonical sha256 a) (hb : Canonical sha256 b)
    (h : a.physicalTopic = b.physicalTopic) : a.namingScheme = b.namingScheme := by
  rcases expectedPhysicalTopic_underscore ha.physical with ⟨hsa, hua⟩ | ⟨hsa, hua⟩ <;>
    rcases expectedPhysicalTopic_underscore hb.physical with ⟨hsb, hub⟩ | ⟨hsb, hub⟩
  · rw [hsa, hsb]
  · exact absurd (h ▸ hub) hua
  · exact absurd (h ▸ hua) hub
  · rw [hsa, hsb]

theorem physical_eq (ha : Canonical sha256 a) (hb : Canonical sha256 b) (hkey : keyFor a = keyFor b)
    (h : a.namingScheme = b.namingScheme) : a.physicalTopic = b.physicalTopic := by
  simp only [keyFor, RouteKey.mk.injEq] at hkey
  obtain ⟨htopic, htype, howner, hrevision⟩ := hkey
  have hname := ha.physical
  rw [htopic, htype, howner, hrevision, h, hb.physical] at hname
  exact (Except.ok.inj hname).symm

theorem group_ne_nil (ha : Canonical sha256 a) (h : a.subscription ≠ []) :
    a.consumerGroup ≠ [] := by
  have hgroup := ha.group
  unfold expectedConsumerGroup at hgroup
  rw [if_neg h] at hgroup
  split at hgroup
  · obtain ⟨-, hname⟩ := readableName_ok hgroup
    rw [hname]
    simp [intercalate_cons_cons, show utf8 "--" ≠ [] by decide]
  · split at hgroup
    · cases hgroup
    · split at hgroup
      · unfold consumerGroupV2 at hgroup
        split at hgroup
        · cases hgroup
        · rw [← Except.ok.inj hgroup]
          exact append_ne_nil_of_left_ne_nil (by decide) _
      · rw [← Except.ok.inj hgroup]
        exact append_ne_nil_of_left_ne_nil (by decide) _

end Canonical

/-! ## One list -/

/-- What `validateRoutes` establishes: rows are canonical, and one broker topic has one key. -/
structure Validated (sha256 : Bytes → Bytes) (rows : List RouteBinding) : Prop where
  canonical : ∀ r ∈ rows, Canonical sha256 r
  one_key : ∀ a ∈ rows, ∀ b ∈ rows, a.physicalTopic = b.physicalTopic → keyFor a = keyFor b

theorem validateRow_ok {c c' : Checked} {r : RouteBinding} (h : validateRow sha256 c r = .ok c') :
    Canonical sha256 r ∧ c'.physical r.physicalTopic = some (keyFor r) ∧
      Extends c.physical c'.physical := by
  unfold validateRow at h
  obtain ⟨expected, hexpected, h⟩ := bind_ok h
  obtain ⟨group, hgroup, h⟩ := bind_ok h
  obtain ⟨_, hvalid, h⟩ := bind_ok h
  obtain ⟨-, -, h⟩ := bind_ok h
  obtain ⟨physical, hphysical, h⟩ := bind_ok h
  obtain ⟨groups, -, h⟩ := bind_ok h
  cases h
  have hnames := refuseIf_ok hvalid
  simp only [not_or, not_not] at hnames
  obtain ⟨-, -, -, rfl, rfl⟩ := hnames
  exact ⟨⟨hexpected, hgroup⟩, claim_ok hphysical⟩

variable {u : Unit} {s s' : Resolving} {row : RouteBinding} {first : Bool}
variable {done : List RouteBinding}

theorem validated_of_validateRoutes {rows : List RouteBinding}
    (h : validateRoutes sha256 rows = .ok u) : Validated sha256 rows := by
  unfold validateRoutes at h
  obtain ⟨-, -, h⟩ := bind_ok h
  obtain ⟨c, hrun, -⟩ := bind_ok h
  -- The table holds the key of every row read.
  let P : List RouteBinding → Checked → Prop := fun done c =>
    ∀ r ∈ done, Canonical sha256 r ∧ c.physical r.physicalTopic = some (keyFor r)
  have hround : ∀ done c r c', P done c → validateRow sha256 c r = .ok c' →
      P (done ++ [r]) c' := by
    intro done c r c' hdone hround
    obtain ⟨hcanonical, hentered, hext⟩ := validateRow_ok hround
    intro a ha
    rcases mem_append.mp ha with ha | ha
    · exact ⟨(hdone a ha).1, hext _ _ (hdone a ha).2⟩
    · obtain rfl := mem_singleton.mp ha
      exact ⟨hcanonical, hentered⟩
  have hrows : P rows c := foldlM_rounds hround (fun _ h => absurd h not_mem_nil) hrun
  refine ⟨fun r hr => (hrows r hr).1, fun a ha b hb hab => ?_⟩
  have hkey := (hrows a ha).2
  rw [hab, (hrows b hb).2] at hkey
  exact (Option.some.inj hkey).symm

/-! ## Both lists -/

theorem refuseOverlap_ok (h : refuseOverlap s row = .ok u) :
    s.recorded row.physicalTopic = none ∨ s.physical row.physicalTopic = true := by
  unfold refuseOverlap at h
  split at h
  · split at h
    next hflag => exact .inr hflag
    next =>
      split at h
      · cases h
      · cases h
  next hnone => exact .inl hnone

theorem resolveRow_ok (h : resolveRow first s row = .ok s') :
    (s.recorded row.physicalTopic = none ∨ s.physical row.physicalTopic = true) ∧
      s'.recorded = Function.update s.recorded row.physicalTopic (some row) ∧
      s'.physical = Function.update s.physical row.physicalTopic true ∧
      Extends s.groups s'.groups ∧ Extends s.logicalGroups s'.logicalGroups ∧
      (row.consumerGroup ≠ [] →
        s'.groups row.consumerGroup = some (row.topic, row.subscription) ∧
        (first = true →
          s'.logicalGroups (row.topic, row.subscription) = some row.consumerGroup)) := by
  unfold resolveRow at h
  obtain ⟨_, hoverlap, h⟩ := bind_ok h
  obtain ⟨logicalGroups, hlogical, h⟩ := bind_ok h
  obtain ⟨groups, hgroups, h⟩ := bind_ok h
  cases h
  obtain ⟨hlogical, hlogicalExt⟩ := claimIf_ok hlogical
  obtain ⟨hgroups, hgroupsExt⟩ := claimIf_ok hgroups
  exact ⟨refuseOverlap_ok hoverlap, rfl, rfl, hgroupsExt, hlogicalExt,
    fun hne => ⟨hgroups hne, fun hfirst => hlogical ⟨hne, hfirst⟩⟩⟩

/-- The tables after the rows `done` of a list, read behind the rows `before` of another. -/
structure Resolved (before done : List RouteBinding) (s : Resolving) : Prop where
  recorded_mem : ∀ p row, s.recorded p = some row → row ∈ before ++ done ∧ row.physicalTopic = p
  recorded_some : ∀ row ∈ before ++ done, (s.recorded row.physicalTopic).isSome
  physical_iff : ∀ p, s.physical p = true ↔ ∃ row ∈ done, row.physicalTopic = p
  disjoint : ∀ a ∈ before, ∀ b ∈ done, a.physicalTopic ≠ b.physicalTopic
  groups : ∀ row ∈ before ++ done, row.consumerGroup ≠ [] →
    s.groups row.consumerGroup = some (row.topic, row.subscription)

/-- The table of the logical subscriptions knows the rows of the active list. -/
def Grouped (active : List RouteBinding) (s : Resolving) : Prop :=
  ∀ row ∈ active, row.consumerGroup ≠ [] →
    s.logicalGroups (row.topic, row.subscription) = some row.consumerGroup

theorem Resolved.round {before : List RouteBinding} (hs : Resolved before done s)
    (h : resolveRow first s row = .ok s') : Resolved before (done ++ [row]) s' := by
  obtain ⟨hoverlap, hrecorded, hphysical, hgroups, -, hnew⟩ := resolveRow_ok h
  have hmem : ∀ a, a ∈ before ++ (done ++ [row]) ↔ a ∈ before ++ done ∨ a = row := by
    intro a
    simp [or_assoc]
  refine ⟨?_, ?_, ?_, ?_, ?_⟩
  · intro p a ha
    rw [hrecorded] at ha
    by_cases hp : p = row.physicalTopic
    · subst hp
      rw [update_self] at ha
      cases ha
      exact ⟨(hmem row).mpr (.inr rfl), rfl⟩
    · rw [update_of_ne hp] at ha
      obtain ⟨hold, htopic⟩ := hs.recorded_mem p a ha
      exact ⟨(hmem a).mpr (.inl hold), htopic⟩
  · intro a ha
    rw [hrecorded]
    by_cases hp : a.physicalTopic = row.physicalTopic
    · rw [hp, update_self, Option.isSome_some]
    · rw [update_of_ne hp]
      rcases (hmem a).mp ha with ha | rfl
      · exact hs.recorded_some a ha
      · exact absurd rfl hp
  · intro p
    rw [hphysical]
    by_cases hp : p = row.physicalTopic
    · subst hp
      simp
    · rw [update_of_ne hp, hs.physical_iff]
      simp [Ne.symm hp, or_and_right, exists_or]
  · intro a ha b hb heq
    rcases mem_append.mp hb with hb | hb
    · exact hs.disjoint a ha b hb heq
    · obtain rfl := mem_singleton.mp hb
      -- The topic is recorded; only a row of this list may have recorded it.
      have hsome := hs.recorded_some a (mem_append_left _ ha)
      rcases hoverlap with hnone | hflag
      · rw [heq, hnone] at hsome
        cases hsome
      · obtain ⟨c, hc, hcb⟩ := (hs.physical_iff _).mp hflag
        exact hs.disjoint a ha c hc (heq.trans hcb.symm)
  · intro a ha hne
    rcases (hmem a).mp ha with ha | rfl
    · exact hgroups _ _ (hs.groups a ha hne)
    · exact (hnew hne).1

theorem Grouped.round_active (hs : Grouped done s) (h : resolveRow true s row = .ok s') :
    Grouped (done ++ [row]) s' := by
  obtain ⟨-, -, -, -, hlogical, hnew⟩ := resolveRow_ok h
  intro a ha hne
  rcases mem_append.mp ha with ha | ha
  · exact hlogical _ _ (hs a ha hne)
  · obtain rfl := mem_singleton.mp ha
    exact (hnew hne).2 rfl

theorem Grouped.round_historical {active : List RouteBinding} (hs : Grouped active s)
    (h : resolveRow false s row = .ok s') : Grouped active s' := by
  obtain ⟨-, -, -, -, hlogical, -⟩ := resolveRow_ok h
  exact fun a ha hne => hlogical _ _ (hs a ha hne)

theorem resolved_lists {active historical : List RouteBinding} {t : Resolving}
    (hactive : resolveList true {} active = .ok s)
    (hhistorical : resolveList false s historical = .ok t) :
    Resolved active historical t ∧ Grouped active t := by
  have hs : Resolved [] active s ∧ Grouped active s :=
    foldlM_rounds (P := fun done s => Resolved [] done s ∧ Grouped done s)
      (fun _ _ _ _ hP h => ⟨hP.1.round h, hP.2.round_active h⟩)
      ⟨⟨by simp, by simp, by simp, by simp, by simp⟩, by simp [Grouped]⟩ hactive
  obtain ⟨hs, hgrouped⟩ := hs
  -- The flags of the first list are dropped before the second is read.
  have hstart : Resolved active [] { s with physical := fun _ => false } :=
    ⟨by simpa using hs.recorded_mem, by simpa using hs.recorded_some, by simp, by simp,
      by simpa using hs.groups⟩
  exact foldlM_rounds (P := fun done s => Resolved active done s ∧ Grouped active s)
    (fun _ _ _ _ hP h => ⟨hP.1.round h, hP.2.round_historical h⟩)
    ⟨hstart, hgrouped⟩ hhistorical

/-- What the two loops have established of the lists behind a resolver. -/
structure Accepted (sha256 : Bytes → Bytes) (active historical : List RouteBinding)
    (r : RouteResolver) (t : Resolving) : Prop where
  valid_active : Validated sha256 active
  valid_historical : Validated sha256 historical
  resolved : Resolved active historical t
  grouped : Grouped active t
  rows : r.active = active
  recorded : r.recorded = t.recorded

theorem accepted_of_newRouteResolver {active historical : List RouteBinding} {r : RouteResolver}
    (h : newRouteResolver sha256 active historical = .ok r) :
    ∃ t, Accepted sha256 active historical r t := by
  unfold newRouteResolver at h
  obtain ⟨_, hactive, h⟩ := bind_ok h
  obtain ⟨_, hhistorical, h⟩ := bind_ok h
  obtain ⟨s, hs, h⟩ := bind_ok h
  obtain ⟨t, ht, h⟩ := bind_ok h
  cases h
  have hvalidated : Validated sha256 historical := by
    split at hhistorical
    · exact validated_of_validateRoutes hhistorical
    next hnone =>
      rw [not_not.mp hnone]
      exact ⟨fun _ h => absurd h not_mem_nil, fun _ h => absurd h not_mem_nil⟩
  obtain ⟨hresolved, hgrouped⟩ := resolved_lists hs ht
  exact ⟨t, validated_of_validateRoutes hactive, hvalidated, hresolved, hgrouped, rfl, rfl⟩

theorem RouteResolver.publishRoute_cases (r : RouteResolver) (key : RouteKey) :
    (∃ row ∈ r.active, keyFor row = key ∧ r.publishRoute key = .ok row) ∨
      (∀ row ∈ r.active, keyFor row ≠ key) ∧
        r.publishRoute key = .error "publishing route not in active manifest" := by
  unfold RouteResolver.publishRoute
  cases hfound : r.active.find? (keyFor · = key) with
  | some row =>
    exact .inl ⟨row, mem_of_find?_eq_some hfound, by simpa using List.find?_some hfound, rfl⟩
  | none => exact .inr ⟨by simpa using hfound, rfl⟩

namespace Accepted

variable {active historical : List RouteBinding} {r : RouteResolver} {t : Resolving}

theorem canonical (h : Accepted sha256 active historical r t) {a : RouteBinding}
    (ha : a ∈ active ++ historical) : Canonical sha256 a := by
  rcases mem_append.mp ha with ha | ha
  · exact h.valid_active.canonical a ha
  · exact h.valid_historical.canonical a ha

theorem one_key (h : Accepted sha256 active historical r t) {a b : RouteBinding}
    (ha : a ∈ active ++ historical) (hb : b ∈ active ++ historical)
    (hab : a.physicalTopic = b.physicalTopic) : keyFor a = keyFor b := by
  rcases mem_append.mp ha with ha | ha <;> rcases mem_append.mp hb with hb | hb
  · exact h.valid_active.one_key a ha b hb hab
  · exact absurd hab (h.resolved.disjoint a ha b hb)
  · exact absurd hab.symm (h.resolved.disjoint b hb a ha)
  · exact h.valid_historical.one_key a ha b hb hab

theorem not_historical (h : Accepted sha256 active historical r t) {a : RouteBinding}
    (ha : a ∈ active) : a ∉ historical :=
  fun hmem => h.resolved.disjoint a ha a hmem rfl

theorem recordedRoute_iff (h : Accepted sha256 active historical r t) (key : RouteKey) (p : Bytes) :
    (∃ row, r.recordedRoute key p = .ok row) ↔
      ∃ row ∈ active ++ historical, keyFor row = key ∧ row.physicalTopic = p := by
  unfold RouteResolver.recordedRoute
  rw [h.recorded]
  constructor
  · rintro ⟨row, hrow⟩
    split at hrow
    next recorded hrecorded =>
      obtain ⟨hmem, htopic⟩ := h.resolved.recorded_mem p recorded hrecorded
      split at hrow
      next hkey => exact ⟨recorded, hmem, hkey, htopic⟩
      next => cases hrow
    next => cases hrow
  · rintro ⟨row, hmem, hkey, rfl⟩
    -- The table may hold another row of the topic; it has the same key.
    obtain ⟨recorded, hrecorded⟩ := Option.isSome_iff_exists.mp (h.resolved.recorded_some row hmem)
    obtain ⟨hother, htopic⟩ := h.resolved.recorded_mem _ recorded hrecorded
    have hsame := h.one_key hother hmem htopic
    exact ⟨recorded, by rw [hrecorded]; simp [hsame, hkey]⟩

variable {row : RouteBinding}

theorem publishRoute_ok (h : Accepted sha256 active historical r t) {key : RouteKey}
    (hrow : r.publishRoute key = .ok row) : row ∈ active ∧ keyFor row = key := by
  rcases r.publishRoute_cases key with ⟨found, hmem, hkey, heq⟩ | ⟨-, heq⟩
  · rw [heq] at hrow
    cases hrow
    exact ⟨h.rows ▸ hmem, hkey⟩
  · rw [heq] at hrow
    cases hrow

theorem subscriptionRoutes_ok (h : Accepted sha256 active historical r t)
    {topic subscription : Bytes} {rows : List RouteBinding}
    (hrows : r.subscriptionRoutes topic subscription = .ok rows) (hrow : row ∈ rows) :
    row ∈ active := by
  unfold RouteResolver.subscriptionRoutes at hrows
  rw [h.rows] at hrows
  simp only at hrows
  split at hrows
  · cases hrows
  · cases hrows
    exact (mem_filter.mp hrow).1

end Accepted

/-- Lists that `newRouteResolver` accepts contradict each other nowhere, and only active rows are
ever handed out to publish or to subscribe. -/
theorem resolver_is_consistent {active historical : List RouteBinding} {r : RouteResolver}
    (h : newRouteResolver sha256 active historical = .ok r) :
    (∀ a ∈ active ++ historical, ∀ b ∈ active ++ historical, a.physicalTopic = b.physicalTopic →
      keyFor a = keyFor b ∧ a.namingScheme = b.namingScheme) ∧
    (∀ a ∈ active, ∀ b ∈ historical, a.physicalTopic ≠ b.physicalTopic) ∧
    (∀ a ∈ active ++ historical, ∀ b ∈ active ++ historical, a.consumerGroup ≠ [] →
      a.consumerGroup = b.consumerGroup → a.topic = b.topic ∧ a.subscription = b.subscription) ∧
    (∀ a ∈ active, ∀ b ∈ active, a.subscription ≠ [] → a.topic = b.topic →
      a.subscription = b.subscription → a.consumerGroup = b.consumerGroup) ∧
    (∀ key p, (∃ row, r.recordedRoute key p = .ok row) ↔
      ∃ row ∈ active ++ historical, keyFor row = key ∧ row.physicalTopic = p) ∧
    (∀ key row, r.publishRoute key = .ok row → row ∈ active ∧ row ∉ historical) ∧
    (∀ topic subscription rows, r.subscriptionRoutes topic subscription = .ok rows →
      ∀ row ∈ rows, row ∈ active ∧ row ∉ historical) := by
  obtain ⟨t, ht⟩ := accepted_of_newRouteResolver h
  refine ⟨?_, ht.resolved.disjoint, ?_, ?_, ht.recordedRoute_iff, ?_, ?_⟩
  · intro a ha b hb hab
    exact ⟨ht.one_key ha hb hab, (ht.canonical ha).scheme_eq (ht.canonical hb) hab⟩
  · intro a ha b hb hne hab
    have hidentity := ht.resolved.groups a ha hne
    rw [hab, ht.resolved.groups b hb (hab ▸ hne)] at hidentity
    simpa using (Option.some.inj hidentity).symm
  · intro a ha b hb hne htopic hsubscription
    have hgroup := ht.grouped a ha ((ht.valid_active.canonical a ha).group_ne_nil hne)
    rw [htopic, hsubscription,
      ht.grouped b hb ((ht.valid_active.canonical b hb).group_ne_nil (hsubscription ▸ hne))] at hgroup
    exact (Option.some.inj hgroup).symm
  · intro key row hrow
    have hmem := (ht.publishRoute_ok hrow).1
    exact ⟨hmem, ht.not_historical hmem⟩
  · intro topic subscription rows hrows row hrow
    have hmem := ht.subscriptionRoutes_ok hrows hrow
    exact ⟨hmem, ht.not_historical hmem⟩

namespace Sample

def readable : RouteBinding where
  topic := utf8 "orders.paid"
  subscription := utf8 "mailer"
  physicalTopic := utf8 "orders-paid--normal--shop--r1"
  consumerGroup := utf8 "orders-paid--mailer"
  messageType := normalMessageType
  owner := utf8 "shop"
  routeRevision := utf8 "r1"
  namingScheme := readableNamingV1

def hashed (sha256 : Bytes → Bytes) : RouteBinding where
  topic := utf8 "orders.paid"
  physicalTopic := utf8 "rmq2_t_" ++ routeDigestV2 sha256 (utf8 "rmq-topic-v2\x00")
    [utf8 "orders.paid", normalMessageType, utf8 "shop", utf8 "r1"]
  messageType := normalMessageType
  owner := utf8 "shop"
  routeRevision := utf8 "r1"

theorem migrated : ∃ r, newRouteResolver id [readable] [hashed id] = .ok r := by
  have hok : (newRouteResolver id [readable] [hashed id]).toOption.isSome = true := by decide +kernel
  cases hr : newRouteResolver id [readable] [hashed id] with
  | ok r => exact ⟨r, rfl⟩
  | error e => simp [hr, Except.toOption] at hok

end Sample

open Sample

theorem resolver_is_consistent_migrated :
    ∃ r, newRouteResolver id [readable] [hashed id] = .ok r ∧
      ∀ row, r.publishRoute (keyFor readable) = .ok row → row ∉ [hashed id] := by
  obtain ⟨r, hr⟩ := migrated
  obtain ⟨-, -, -, -, -, hpublish, -⟩ := resolver_is_consistent hr
  exact ⟨r, hr, fun row hrow => (hpublish _ row hrow).2⟩

/-! ## One key, one topic? -/

/-- The publishing routes of a resolver are unambiguous exactly if no key has active rows of two
naming schemes. The loops check that for the groups of a subscription and not for a key. -/
theorem publishing_unambiguous_iff_one_scheme {active historical : List RouteBinding}
    {r : RouteResolver} (h : newRouteResolver sha256 active historical = .ok r) :
    ((∀ a ∈ active, ∀ b ∈ active, keyFor a = keyFor b → a.physicalTopic = b.physicalTopic) ∧
      (∀ active' r', active'.Perm active →
        newRouteResolver sha256 active' historical = .ok r' → ∀ key,
          (r'.publishRoute key).map (·.physicalTopic) =
            (r.publishRoute key).map (·.physicalTopic)) ∧
      (∀ key selected, r.publishRoute key = .ok selected → ∀ row ∈ active, keyFor row = key →
        row.physicalTopic = selected.physicalTopic)) ↔
    ∀ a ∈ active, ∀ b ∈ active, keyFor a = keyFor b → a.namingScheme = b.namingScheme := by
  obtain ⟨t, ht⟩ := accepted_of_newRouteResolver h
  have hcanonical := ht.valid_active.canonical
  constructor
  · rintro ⟨hone, -, -⟩ a ha b hb hkey
    exact (hcanonical a ha).scheme_eq (hcanonical b hb) (hone a ha b hb hkey)
  · intro hscheme
    have hone : ∀ a ∈ active, ∀ b ∈ active, keyFor a = keyFor b →
        a.physicalTopic = b.physicalTopic := fun a ha b hb hkey =>
      (hcanonical a ha).physical_eq (hcanonical b hb) hkey (hscheme a ha b hb hkey)
    refine ⟨hone, ?_, ?_⟩
    · intro active' r' hperm hr' key
      obtain ⟨t', ht'⟩ := accepted_of_newRouteResolver hr'
      have hsame : ∀ row, row ∈ r'.active ↔ row ∈ r.active := by
        intro row
        rw [ht'.rows, ht.rows, hperm.mem_iff]
      rcases r.publishRoute_cases key with ⟨a, ha, hkey, heq⟩ | ⟨hnone, heq⟩
      · rcases r'.publishRoute_cases key with ⟨a', ha', hkey', heq'⟩ | ⟨hnone', -⟩
        · rw [heq, heq']
          have htopic := hone a' (ht.rows ▸ (hsame a').mp ha') a (ht.rows ▸ ha)
            (hkey'.trans hkey.symm)
          simp [Except.map, htopic]
        · exact absurd hkey (hnone' a ((hsame a).mpr ha))
      · rcases r'.publishRoute_cases key with ⟨a', ha', hkey', -⟩ | ⟨-, heq'⟩
        · exact absurd hkey' (hnone a' ((hsame a').mp ha'))
        · rw [heq, heq']
    · intro key selected hselected row hrow hkey
      obtain ⟨hmem, hselectedKey⟩ := ht.publishRoute_ok hselected
      exact hone row hrow selected hmem (hkey.trans hselectedKey.symm)

theorem publishing_unambiguous_iff_one_scheme_migrated :
    ∃ r, newRouteResolver id [readable] [hashed id] = .ok r ∧
      ∀ key selected, r.publishRoute key = .ok selected → ∀ row ∈ [readable],
        keyFor row = key → row.physicalTopic = selected.physicalTopic := by
  obtain ⟨r, hr⟩ := migrated
  exact ⟨r, hr, ((publishing_unambiguous_iff_one_scheme hr).mpr (by simp)).2.2⟩

/-- Both names of one key are active. Messages go to the topic of whichever row comes first, and in
one of the two orders the subscriber listens on the other. -/
theorem publishing_depends_on_order :
    keyFor readable = keyFor (hashed id) ∧
    readable.physicalTopic ≠ (hashed id).physicalTopic ∧
    ((newRouteResolver id [readable, hashed id] []).bind fun r =>
      r.publishRoute (keyFor readable)).toOption = some readable ∧
    ((newRouteResolver id [hashed id, readable] []).bind fun r =>
      r.publishRoute (keyFor readable)).toOption = some (hashed id) ∧
    ((newRouteResolver id [hashed id, readable] []).bind fun r =>
      r.subscriptionRoutes readable.topic readable.subscription).toOption =
        some [readable] := by
  decide +kernel

/-- A manifest has one scheme for its active rows, so a manifest that is accepted has one topic for
each key. -/
theorem parsed_manifest_is_unambiguous {unmarshal : Bytes → Option RouteManifest} {raw : Bytes}
    {m : RouteManifest} (h : parseRouteManifest sha256 unmarshal raw = .ok m) :
    ∀ a ∈ m.routes, ∀ b ∈ m.routes, keyFor a = keyFor b → a.physicalTopic = b.physicalTopic := by
  unfold parseRouteManifest at h
  obtain ⟨-, -, h⟩ := bind_ok h
  obtain ⟨m', -, h⟩ := bind_ok h
  obtain ⟨_, hversion, h⟩ := bind_ok h
  obtain ⟨_, hcodec, h⟩ := bind_ok h
  obtain ⟨-, -, h⟩ := bind_ok h
  obtain ⟨-, -, h⟩ := bind_ok h
  obtain ⟨r, hr, h⟩ := bind_ok h
  cases h
  have hknown : m.version = 1 ∨ m.version = 2 ∨ m.version = 3 := by
    have := refuseIf_ok hversion
    omega
  have hrows : ∀ row ∈ m.routes, m.codecDiffers row = false := by
    simpa using refuseIf_ok hcodec
  have hscheme : ∀ row ∈ m.routes,
      row.namingScheme = if m.version = 3 then readableNamingV1 else [] := by
    intro row hrow
    have hdiffers := hrows row hrow
    rcases hknown with hv | hv | hv <;> simp_all [RouteManifest.codecDiffers]
  intro a ha b hb hkey
  obtain ⟨t, ht⟩ := accepted_of_newRouteResolver hr
  exact (ht.valid_active.canonical a ha).physical_eq (ht.valid_active.canonical b hb) hkey
    (by rw [hscheme a ha, hscheme b hb])

/-- The publisher's row and a subscriber's row of one topic. -/
theorem parsed_manifest_is_unambiguous_readable :
    ∃ m, parseRouteManifest id (fun _ => some ⟨3, [{ readable with
        subscription := [], consumerGroup := [] }, readable], []⟩) [0] = .ok m ∧
      m.routes.length = 2 ∧ ∀ a ∈ m.routes, ∀ b ∈ m.routes, keyFor a = keyFor b →
        a.physicalTopic = b.physicalTopic := by
  have hok : ((parseRouteManifest id (fun _ => some ⟨3, [{ readable with
      subscription := [], consumerGroup := [] }, readable], []⟩) [0]).toOption.map
        (·.routes.length)) = some 2 := by
    decide +kernel
  cases hm : parseRouteManifest id _ _ with
  | ok m =>
    rw [hm] at hok
    exact ⟨m, rfl, Option.some.inj hok, parsed_manifest_is_unambiguous hm⟩
  | error e =>
    rw [hm] at hok
    cases hok

end Digests

end ReliableMessaging.Transport
