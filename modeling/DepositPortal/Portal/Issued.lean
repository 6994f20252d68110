import DepositPortal.Portal.Doors

/-!
# The links that were issued

A link comes into the table by the commit of a `create` or of a `regenerate`, and that commit is also
the answer: the address handed over carries the token of the link. So every link of the table was issued
by one finished call, every finished call issued one link, and no two calls the same (`Books`).
-/
namespace DepositPortal.Portal
open Interleave ReadCommitted
open Requests (RequestedItem Plan)
open PublicLinks (DepositRequest PublicLink Xid Kept Token IssuedLink buildDepositUrl
  generatePublicToken)
open Deposits (RequestId)

variable {cfg : Config} {plan : Plan} {k : Choice} {s s' : State} {f f' e : Call} {link : PublicLink}
  {requestId : RequestId} {token token' : Token} {issued : IssuedLink} {w w' : World State Call}
  {G : World State Call → Act Call Choice → Prop}

/-- The address of the answer carries the token. -/
structure Carries (cfg : Config) (token : Token) (issued : IssuedLink) : Prop where
  generated : ∃ random, token = generatePublicToken random
  url : buildDepositUrl cfg.PUBLIC_BASE_URL token = some issued.url

/-- The call has answered with this token, for the request. -/
def Issued (cfg : Config) (requestId : RequestId) (token : Token) : Call → Prop
  | .create (.done _ (.ok view)) => view.id = requestId ∧ Carries cfg token view.link
  | .links (.done (.regenerate id _ _) (.ok (some issued))) =>
    id = requestId ∧ Carries cfg token issued
  | _ => False

theorem Carries.unique (h : Carries cfg token issued) (h' : Carries cfg token' issued) :
    token = token' := by
  obtain ⟨⟨random, rfl⟩, hurl⟩ := h
  obtain ⟨⟨random', rfl⟩, hurl'⟩ := h'
  rw [PublicLinks.buildDepositUrl_generated] at hurl hurl'
  exact List.append_cancel_left (Option.some.inj (hurl.trans hurl'.symm))

/-- A call issues one token. -/
theorem Issued.unique {requestId' : RequestId} (h : Issued cfg requestId token f)
    (h' : Issued cfg requestId' token' f) : requestId = requestId' ∧ token = token' := by
  unfold Issued at h h'
  split at h
  · exact ⟨h.1.symm.trans h'.1, h.2.unique h'.2⟩
  · exact ⟨h.1.symm.trans h'.1, h.2.unique h'.2⟩
  · exact absurd h id

theorem not_issued_error (args : PublicLinks.Args) (failure : PublicLinks.Failure) :
    ¬ Issued cfg requestId token (.links (.done args (.error failure))) := by
  cases args <;> exact id

/-- A call that can step has issued nothing yet. -/
theorem not_issued_of_exec {r : State × Call} (he : exec cfg plan k s f = some r) :
    ¬ Issued cfg requestId token f := by
  intro h
  unfold Issued at h
  split at h
  · cases he
  · cases he
  · exact h

/-! ## The commit of a link is its answer -/

/-- The answer of a `create` whose token was generated. -/
theorem answer_ok {x : Creation} (request : DepositRequest) (items : List RequestedItem)
    (hx : Drawn cfg x) : ∃ view, x.answer cfg request items = .ok view ∧ view.id = request.id ∧
      Carries cfg x.token view.link := by
  obtain ⟨⟨random, ht⟩, -⟩ := hx
  have hurl := PublicLinks.buildDepositUrl_generated cfg.PUBLIC_BASE_URL random
  rw [← ht] at hurl
  rw [Creation.answer, hurl]
  exact ⟨_, rfl, rfl, ⟨random, ht⟩, hurl⟩

/-- What a transaction of a regeneration answers when it commits. -/
theorem issued_of_purpose {x : PublicLinks.Tx} {new : PublicLinks.NewLink}
    (h : PublicLinks.Purpose cfg.toConfig x) (hx : x.link = some new) :
    Issued cfg x.ownedId new.token (.links (.done x.args (PublicLinks.answerOf cfg.toConfig x))) := by
  obtain ⟨hn, -⟩ | ⟨new', issued, hl, ha, hurl, -, -⟩ := h.answer
  · rw [hx] at hn; cases hn
  · rw [hx] at hl
    cases hl
    simp only [PublicLinks.Purpose, hx] at h
    obtain ⟨⟨lawyerId, days, hargs⟩, hgen, -⟩ := h
    rw [hargs, ha]
    exact ⟨rfl, hgen, hurl⟩

/-- What brings a link into the table. -/
inductive Brings (cfg : Config) (k : Choice) (s : State) (link : PublicLink) : Call → Call → Prop
  | regenerated (x : PublicLinks.Tx) (new : PublicLinks.NewLink) (k' : PublicLinks.Choice) :
      k.fault = none → x.link = some new → link = PublicLinks.rowOf cfg.toConfig k' x new →
      Brings cfg k s link (.links (.commit x))
        (.links (.done x.args (PublicLinks.answerOf cfg.toConfig x)))
  | created (x : Creation) (xid : Xid) (request : DepositRequest) (items : List RequestedItem)
      (k' : Choice) : PrimaryKeys s [request] items → link.requestId = request.id →
      link = x.link cfg k' →
      Brings cfg k s link (.create (.commit x xid request items))
        (.create (.done x.lawyerId (x.answer cfg request items)))

/-- A link after a step was there before it, or came in by a commit. -/
theorem Step.brings (h : Step cfg k s f s' f') (hI : Sound s) (ha : Asserts cfg s f)
    (hl : link ∈ s'.links.links) :
    (∃ old ∈ s.links.links, Kept old link) ∨ Brings cfg k s link f f' := by
  have hold : s'.links.links = s.links.links → (∃ old ∈ s.links.links, Kept old link) ∨
      Brings cfg k s link f f' :=
    fun e => .inl ⟨link, e ▸ hl, .inl rfl⟩
  cases h with
  | create g g' s' h =>
    cases h with
    | created x xid request items hkeys =>
      refine (committed_cases hI.links hl).imp id ?_
      rintro ⟨c, hc, -, hp⟩
      obtain ⟨-, -, ⟨k', hk', -, hown⟩, -⟩ := ha
      obtain rfl := hown c hc link hp
      cases hp
      exact .created x xid request items k' hkeys hk' rfl
    | inserted x T hT => exact hold (rows_insert hT)
    | aborted x xid _ _ _ => exact hold (rows_rollback _ _)
    | _ => exact hold rfl
  | links g g' t h =>
    obtain e | ⟨x, rfl, rfl, rfl⟩ := (PublicLinks.step_of_exec h).links
    · exact hold e
    · refine (committed_cases hI.links hl).imp id ?_
      rintro ⟨c, hc, hn, hp⟩
      obtain ⟨new, k', hx, rfl⟩ := ha.2.1 c hc link hp hn
      refine .regenerated x new k' ?_ hx rfl
      rcases commit_exec h with ⟨hfault, -, -⟩ | ⟨fault, -, -, hd⟩
      · exact hfault
      · exact absurd (PublicLinks.Call.done.inj hd).2 (answerOf_ne _ x x.args fault)
  | client g g' s' h => cases h <;> exact hold rfl
  | seed g g' s' h => cases h <;> exact hold rfl
  | reissued owner id => exact hold rfl

/-- A link that a step adds is the one its call has just issued. -/
theorem Step.newLink (h : Step cfg k s f s' f') (hI : Sound s) (ha : Asserts cfg s f)
    (hl : link ∈ s'.links.links) : (∃ old ∈ s.links.links, Kept old link) ∨
      ∃ token, Issued cfg link.requestId token f' ∧ link.tokenHash = cfg.hashPublicToken token := by
  refine (h.brings hI ha hl).imp id fun hb => ?_
  cases hb with
  | regenerated x new k' _ hx e =>
    subst e
    exact ⟨new.token, issued_of_purpose ha.1.1.purpose hx, rfl⟩
  | created x xid request items k' _ hreq e =>
    subst e
    obtain ⟨view, hans, hid, hcar⟩ := answer_ok request items ha.1
    refine ⟨x.token, ?_, rfl⟩
    rw [hans]
    exact ⟨hid.trans hreq.symm, hcar⟩

/-- A call issues the link it commits: nobody saw it before. -/
theorem Step.link_of_issued (h : Step cfg k s f s' f') (ha : Asserts cfg s f)
    (hi : Issued cfg requestId token f') : ∃ link ∈ s'.links.links, link.requestId = requestId ∧
      link.tokenHash = cfg.hashPublicToken token ∧
      ∃ t, ⟨none, some (t, link)⟩ ∈ s.links.publicLink := by
  have hrow : ∀ (t : Xid) (l : PublicLink), ⟨none, some (t, l)⟩ ∈ s.links.publicLink →
      l ∈ rows (ReadCommitted.commit t s.links.publicLink) := fun t l hm => by
    rw [rows_commit]
    exact List.mem_filterMap.2 ⟨_, hm, sees_eq_some.2 (.inl rfl)⟩
  cases h with
  | create g g' s' h =>
    cases h with
    | created x xid request items _ =>
      obtain ⟨hd, -, ⟨k', hk', hm, -⟩, -⟩ := ha
      obtain ⟨view, hans, hid, hcar⟩ := answer_ok request items hd
      rw [hans] at hi
      obtain ⟨rfl, hcar'⟩ := hi
      obtain rfl := hcar.unique hcar'
      exact ⟨_, hrow xid _ hm, hk'.trans hid.symm, rfl, xid, hm⟩
    | _ => exact absurd hi id
  | links g g' t h =>
    have hstep := PublicLinks.step_of_exec h
    cases hstep with
    | committed x =>
      cases hx : x.link with
      | none =>
        obtain ⟨-, ha'⟩ | ⟨new, _, hl, -⟩ := ha.1.1.purpose.answer
        · rw [ha'] at hi
          have hp := ha.1.1.purpose
          simp only [PublicLinks.Purpose, hx] at hp
          obtain ⟨lawyerId, hargs⟩ := hp
          rw [hargs] at hi
          exact absurd hi id
        · rw [hx] at hl; cases hl
      | some new =>
        obtain ⟨hreq, rfl⟩ := (issued_of_purpose ha.1.1.purpose hx).unique hi
        obtain ⟨k', hm⟩ := ha.1.2 new hx
        exact ⟨_, hrow x.xid _ hm, hreq, rfl, x.xid, hm⟩
    | refused args _ | hashFailed args _ _ _ _ _ => exact absurd hi (not_issued_error args _)
    | aborted _ x _ _ => exact absurd hi (not_issued_error x.args _)
    | _ => exact absurd hi id
  | client g g' s' h => exact absurd hi id
  | seed g g' s' h => exact absurd hi id
  | reissued owner id => exact absurd hi (by simp [Issued])

/-! ## The books of a run -/

/-- The links and the calls that issued them. -/
structure Books (cfg : Config) (w : World State Call) : Prop where
  /-- Every link was issued, -/
  issuer : ∀ link ∈ w.shared.links.links, ∃ f ∈ w.calls, ∃ token,
    Issued cfg link.requestId token f ∧ link.tokenHash = cfg.hashPublicToken token
  /-- every token that was issued is the token of a link, -/
  row : ∀ f ∈ w.calls, ∀ requestId token, Issued cfg requestId token f →
    ∃ link ∈ w.shared.links.links, link.requestId = requestId ∧
      link.tokenHash = cfg.hashPublicToken token
  /-- and two calls have not issued the same. -/
  apart : ∀ (i j : Nat) (f e : Call) (r r' : RequestId) (t t' : Token), i ≠ j →
    w.calls[i]? = some f → w.calls[j]? = some e → Issued cfg r t f → Issued cfg r' t' e →
    cfg.hashPublicToken t ≠ cfg.hashPublicToken t'

/-- The hash of a link that was committed is not that of one another transaction inserts. -/
theorem tokenHash_ne (hI : Sound s) {new : PublicLink} {t : Xid} (hl : link ∈ s.links.links)
    (hnew : ⟨none, some (t, new)⟩ ∈ s.links.publicLink) : new.tokenHash ≠ link.tokenHash := by
  obtain ⟨c, hc, hcl⟩ := List.mem_filterMap.1 hl
  obtain ⟨link', hs, hk⟩ := PublicLinks.sees_kept hI.links hc hcl t
  have hne : c ≠ ⟨none, some (t, new)⟩ := by rintro rfl; cases hcl
  have : Std.Symm fun c d : Cell Xid PublicLink => Compatible PublicLinks.keys c d :=
    ⟨fun _ _ => Compatible.symm⟩
  have hclash := (hI.links.wf.forall hc hnew hne).sees hs (sees_eq_some.2 (.inl rfl))
  intro e
  refine clash_eq_false.1 hclash (.tokenHash link.tokenHash) ?_ ?_
  · simp [PublicLinks.keys, hk.same.2.1]
  · simp [PublicLinks.keys, e]

theorem books_enter (h : Books cfg w) (hen : enters f = true) :
    Books cfg ⟨w.shared, w.calls ++ [f]⟩ := by
  have hno : ∀ requestId token, ¬ Issued cfg requestId token f := by
    intro requestId token hi
    unfold Issued at hi
    split at hi
    · cases hen
    · cases hen
    · exact hi
  refine ⟨fun link hl => ?_, fun g hg requestId token hi => ?_,
    fun i j g e r r' t t' hij hg he hi hi' => ?_⟩
  · obtain ⟨g, hg, hi⟩ := h.issuer link hl
    exact ⟨g, List.mem_append_left _ hg, hi⟩
  · rcases List.mem_append.1 hg with hg | hg
    · exact h.row g hg requestId token hi
    · obtain rfl := List.mem_singleton.1 hg
      exact absurd hi (hno requestId token)
  · rcases getElem?_append_cases hg with ⟨-, rfl⟩ | ⟨-, hg⟩
    · exact absurd hi (hno r t)
    · rcases getElem?_append_cases he with ⟨-, rfl⟩ | ⟨-, he⟩
      · exact absurd hi' (hno r' t')
      · exact h.apart i j g e r r' t t' hij hg he hi hi'

theorem books_run (hH : Holds Sound (Asserts cfg) w) (h : Books cfg w) {i : Nat}
    (hf : w.calls[i]? = some f) (he : exec cfg plan k w.shared f = some (s', f')) :
    Books cfg ⟨s', w.calls.set i f'⟩ := by
  have hstep := step_of_exec he
  have hg := hstep.grows hH.1.links
  have hself : f' ∈ w.calls.set i f' := List.mem_set (lt_of_getElem?_eq_some hf) f'
  have hother : ∀ g ∈ w.calls, (∃ requestId token, Issued cfg requestId token g) →
      g ∈ w.calls.set i f' := by
    rintro g hm ⟨requestId, token, hi⟩
    obtain ⟨j, hj⟩ := List.mem_iff_getElem?.1 hm
    have hij : i ≠ j := by
      rintro rfl
      rw [hf] at hj; cases hj
      exact not_issued_of_exec he hi
    exact List.mem_iff_getElem?.2 ⟨j, by rwa [List.getElem?_set_ne hij]⟩
  have hkept : ∀ g ∈ w.calls, ∀ requestId token, Issued cfg requestId token g →
      ∃ link ∈ s'.links.links, link.requestId = requestId ∧
        link.tokenHash = cfg.hashPublicToken token := by
    intro g hm requestId token hi
    obtain ⟨link, hl, hreq, ht⟩ := h.row g hm requestId token hi
    obtain ⟨link', hl', hk⟩ := hg.links link hl
    exact ⟨link', hl', hk.same.2.2.trans hreq, hk.same.2.1.trans ht⟩
  -- the step's own token is that of a row nobody could see
  have hnew : ∀ (j : Nat) (g : Call) (r r' : RequestId) (t t' : Token), w.calls[j]? = some g →
      Issued cfg r t f' → Issued cfg r' t' g →
      cfg.hashPublicToken t ≠ cfg.hashPublicToken t' := by
    intro j g r r' t t' hj hi hi' heq
    obtain ⟨link, -, -, ht, xid, hm⟩ := hstep.link_of_issued (hH.call hf) hi
    obtain ⟨old, ho, -, ht'⟩ := h.row g (List.mem_of_getElem? hj) r' t' hi'
    exact tokenHash_ne hH.1 ho hm (ht.trans (heq.trans ht'.symm))
  refine ⟨fun link hl => ?_, fun g hm requestId token hi => ?_,
    fun p q g e r r' t t' hpq hp hq hi hi' => ?_⟩
  · obtain ⟨old, ho, hk⟩ | ⟨token, hi, ht⟩ := hstep.newLink hH.1 (hH.call hf) hl
    · obtain ⟨g, hm, token, hi, ht⟩ := h.issuer old ho
      refine ⟨g, hother g hm ⟨_, _, hi⟩, token, ?_, hk.same.2.1.trans ht⟩
      rw [hk.same.2.2]; exact hi
    · exact ⟨f', hself, token, hi, ht⟩
  · rcases List.mem_or_eq_of_mem_set hm with hm | rfl
    · exact hkept g hm requestId token hi
    · obtain ⟨link, hl, hreq, ht, -⟩ := hstep.link_of_issued (hH.call hf) hi
      exact ⟨link, hl, hreq, ht⟩
  · rcases getElem?_set_cases hp with ⟨rfl, rfl⟩ | ⟨-, hp'⟩
    · rcases getElem?_set_cases hq with ⟨rfl, rfl⟩ | ⟨-, hq'⟩
      · exact absurd rfl hpq
      · exact hnew q e r r' t t' hq' hi hi'
    · rcases getElem?_set_cases hq with ⟨rfl, rfl⟩ | ⟨-, hq'⟩
      · exact (hnew p g r' r t' t hp' hi' hi).symm
      · exact h.apart p q g e r r' t t' hpq hp' hq' hi hi'

theorem books_of_reaches (h : (machine cfg plan).Reaches G ⟨State.empty, []⟩ w) : Books cfg w := by
  refine h.induct (I := Books cfg) ⟨fun _ hl => (by cases hl), fun _ hm => (by cases hm),
    fun i j f e r r' t t' _ hf => by simp at hf⟩ ?_
  intro w a w' hw ih _ hn
  obtain ⟨g, -, hen, rfl⟩ | ⟨i, k, g, s', g', -, hg, he, rfl⟩ := next_cases hn
  · exact books_enter ih hen
  · exact books_run (holds hw) ih hg he

end DepositPortal.Portal
