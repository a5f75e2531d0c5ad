import GumServer.Refresh
import GumServer.Sources

/-!
# Relay's chains

Every page of a payer, every search and every quote needs Relay's list of chains, and they all go
through `RelayClient::chains`. It is a value fetched from afar: kept for `relay.chains_ttl_secs`,
served beyond that after a failed refresh, and fetched by one caller at a time. Times are in
nanoseconds.
-/

namespace GumServer

open Refresh

/-- `CHAINS_BACKOFF`. -/
def CHAINS_BACKOFF : ℤ := 30 * 10 ^ 9

/-- The settings of a `RelayClient` that `chains` reads: whether it has a base URL and a key, and
`relay.chains_ttl_secs`. -/
structure RelayClient where
  configured : Bool
  chainsTtlSecs : U64

namespace RelayClient

variable (client : RelayClient)

/-- The time to live of the list. -/
def chainsTtl : ℤ := client.chainsTtlSecs.val * 10 ^ 9

/-- How `chains` keeps the list. -/
def policy : Policy UpstreamError where
  ttl := client.chainsTtl
  backoff := CHAINS_BACKOFF
  busy := .unavailable "relay chains unavailable; retrying shortly"
  unreachable := if client.configured then none else some .notConfigured
  ttl_nonneg := Int.mul_nonneg (Int.natCast_nonneg _) (by decide)
  backoff_pos := by decide

/-- A step of the callers of `chains`. -/
def step : State (List RelayChain) → Refresh.Action (List RelayChain) UpstreamError →
    Option (State (List RelayChain)) :=
  Refresh.step client.policy

/-- What a call of `chains` comes to. -/
def chains (s : State (List RelayChain))
    (a : Refresh.Action (List RelayChain) UpstreamError) :
    Option (Except UpstreamError (List RelayChain)) :=
  returned client.policy s a

end RelayClient

/-- **The list everybody works with.** In every run of any number of callers, of which any may be
dropped anywhere: whoever gets a list gets the last one Relay has sent, fetched just now, or less
than its time to live ago, or else the last refresh has failed less than the backoff ago. Until
another list has come, everybody gets the same one and nobody an error; and so whatever a page
offers can be quoted. And any span of time sees no more answers than fit into it at the distance of
the shorter of the two. -/
theorem chains_kept (client : RelayClient) (start : ℤ)
    (steps : List (State (List RelayChain) × Refresh.Action (List RelayChain) UpstreamError))
    (s : State (List RelayChain)) (h : Lts.Trace client.step (State.init start) steps s) :
    (∀ a list, client.chains s a = some (.ok list) →
      ∃ t, lastFetched (fetches (steps ++ [(s, a)])) = some (t, list) ∧
        (t = s.now ∨ s.now - t < client.chainsTtl ∨
          ∃ t', lastFailed (fetches (steps ++ [(s, a)])) = some t' ∧
            s.now - t' < CHAINS_BACKOFF)) ∧
    (∀ before s₁ a₁ middle a answer answer',
      steps = before ++ (s₁, a₁) :: middle → client.chains s₁ a₁ = some answer →
      client.chains s a = some answer' →
      (∀ x ∈ fetches (middle ++ [(s, a)]), ∃ e, x.2 = .error e) →
      (∀ list, answer = .ok list → answer' = .ok list) ∧
      ∀ lib opened logos body, sources lib true opened answer logos = .ok body →
        body.available = true → ∃ deposit list, opened = .ok deposit ∧ answer' = .ok list ∧
          ((list.map RelayChain.id).Nodup → ∀ chainId currency,
            ¬ (chainId.toI64 = deposit.chainId ∧ currency.lowerHex = deposit.tokenAddress) →
            (∃ c ∈ body.chains, c.id = chainId ∧ c.Offers currency.lowerHex) →
            ∃ origin, quoteOrigin false list chainId currency = .ok origin)) ∧
    ∀ t span, 0 ≤ span →
      (((fetches steps).countP fun x => decide (t ≤ x.1 ∧ x.1 ≤ t + span) : ℕ) : ℤ) *
        min client.chainsTtl CHAINS_BACKOFF ≤ span + min client.chainsTtl CHAINS_BACKOFF := by
  refine ⟨fun a list hlist => returned_ok h hlist, ?_, ?_⟩
  · rintro before s₁ a₁ middle a answer answer' rfl hfirst hsecond hnone
    have hkept (list : List RelayChain) (hlist : answer = .ok list) : answer' = .ok list :=
      returned_same h (hlist ▸ hfirst) hnone hsecond
    refine ⟨hkept, ?_⟩
    intro lib opened logos body hbody havailable
    obtain ⟨deposit, list, hopened, hlist, -, -, hchains⟩ := sources_available hbody havailable
    refine ⟨deposit, list, hopened, hkept list hlist, ?_⟩
    intro hids chainId currency hother hoffered
    rw [hchains] at hoffered
    exact offered_quotable hids hother hoffered
  · intro t span hspan
    have hpos : 0 ≤ min client.chainsTtl CHAINS_BACKOFF :=
      le_min client.policy.ttl_nonneg client.policy.backoff_pos.le
    exact fetches_le h hpos (min_le_left _ _) (min_le_right _ _) t hspan

/-- A list that is kept over a refresh that fails: the second page is served the stale one, and
takes the payer's token as the first one offered it. -/
theorem chains_kept_fixture : ∃ d body steps s origin,
    insertDeposit Fixture.new 7 "user" Fixture.requestedAt = some d ∧
    Fixture.sourcesFor d = .ok body ∧
    Lts.Trace (RelayClient.step ⟨true, 300⟩) (State.init 0) steps s ∧
    fetches steps = [(0, .ok [Fixture.anvil, Fixture.base]),
      (301 * 10 ^ 9, .error (.unavailable "timeout"))] ∧
    RelayClient.chains ⟨true, 300⟩ s (.call 2) = some (.ok [Fixture.anvil, Fixture.base]) ∧
    quoteOrigin false [Fixture.anvil, Fixture.base] 8453 Fixture.baseUsdc = .ok origin := by
  have hrun : ((insertDeposit Fixture.new 7 "user" Fixture.requestedAt).bind fun d =>
      (Fixture.sourcesFor d).toOption.map fun body =>
        (body.available, d.chainId, body.chains.any fun c =>
          c.id == 8453 && (c.tokens.map SourceToken.address).contains
            Fixture.baseUsdc.lowerHex)) = some (true, 31337, true) := by decide +kernel
  obtain ⟨d, hd, hrun⟩ := Option.bind_eq_some_iff.mp hrun
  obtain ⟨body, hbody, hfound⟩ := Option.map_eq_some_iff.mp hrun
  obtain ⟨havailable, hfound⟩ := Prod.mk.inj hfound
  obtain ⟨hchain, hany⟩ := Prod.mk.inj hfound
  rw [Checks.toOption_eq_some] at hbody
  obtain ⟨c, hc, hoffers⟩ := List.any_eq_true.mp hany
  rw [Bool.and_eq_true, beq_iff_eq, List.contains_iff_mem] at hoffers
  have hother : ¬ ((8453 : U64).toI64 = d.chainId ∧ Fixture.baseUsdc.lowerHex = d.tokenAddress) := by
    rw [hchain]
    rintro ⟨h, -⟩
    exact absurd h (by decide)
  have htrace : Lts.Trace (RelayClient.step ⟨true, 300⟩) (State.init 0)
      [(State.init 0, .call 0),
        (⟨0, .empty, some 0⟩, .answer (.ok [Fixture.anvil, Fixture.base])),
        (⟨0, ⟨some (0, [Fixture.anvil, Fixture.base]), none⟩, none⟩, .tick (301 * 10 ^ 9)),
        (⟨301 * 10 ^ 9, ⟨some (0, [Fixture.anvil, Fixture.base]), none⟩, none⟩, .call 1),
        (⟨301 * 10 ^ 9, ⟨some (0, [Fixture.anvil, Fixture.base]), none⟩, some 1⟩,
          .answer (.error (.unavailable "timeout"))),
        (⟨301 * 10 ^ 9, ⟨some (0, [Fixture.anvil, Fixture.base]), some (301 * 10 ^ 9)⟩, none⟩,
          .tick (310 * 10 ^ 9))]
      ⟨310 * 10 ^ 9, ⟨some (0, [Fixture.anvil, Fixture.base]), some (301 * 10 ^ 9)⟩, none⟩ :=
    .cons rfl (.cons rfl (.cons rfl (.cons rfl (.cons rfl (.cons rfl .nil)))))
  obtain ⟨-, hpage⟩ := (chains_kept ⟨true, 300⟩ 0 _ _ htrace).2.1
    [(State.init 0, .call 0)] _ _ _ (.call 2) (.ok [Fixture.anvil, Fixture.base])
    (.ok [Fixture.anvil, Fixture.base]) rfl rfl rfl fun x hx => by
      obtain rfl : x = (301 * 10 ^ 9, .error (.unavailable "timeout")) := List.mem_singleton.mp hx
      exact ⟨_, rfl⟩
  obtain ⟨deposit, list, hopened, hlist, hquotable⟩ :=
    hpage Crates.reference (.ok d) (fun _ _ => none) body hbody havailable
  obtain rfl := Except.ok.inj hopened
  obtain rfl := Except.ok.inj hlist
  obtain ⟨origin, horigin⟩ := hquotable (by decide) 8453 Fixture.baseUsdc hother
    ⟨c, hc, hoffers.1, .inl hoffers.2⟩
  exact ⟨d, body, _, _, origin, hd, hbody, htrace, rfl, rfl, horigin⟩

end GumServer
