import DepositPortal.Number
import DepositPortal.Public.Deposits
import DepositPortal.Query
import Mathlib.Data.List.ReduceOption

/-!
# Erasing a prefix: `StorageService.deleteByPrefix` (storage/storage.service.ts:135)

The loop lists a page of keys, deletes them, and goes on from where the page ended, in the bucket it
has just changed. The server is S3: `ListObjectsV2` lists the keys of the prefix in its order, from the
place the token stands for, and decides how many; `DeleteObjects` deletes keys one by one and reports
those it did not. A `Turn` is what it decides in one round, so a list of turns is a way to cut the
listing into pages, and `deleteByPrefix` is `none` when the turns run out or the server could not have
answered so.
-/
namespace DepositPortal.Storage
open Deposits (StorageKey Bucket Object)

structure ListObjectsV2Input where
  Prefix : JsString
  MaxKeys : Nat
  ContinuationToken : Option JsString

/-- `Contents` gives the `Key` of each object, which the type of the client leaves open. -/
structure ListObjectsV2Output where
  Contents : Option (List (Option StorageKey))
  IsTruncated : Bool
  NextContinuationToken : Option JsString

structure DeleteError where
  Key : Option StorageKey
  Code : Option JsString

structure DeleteObjectsOutput where
  Deleted : Option (List StorageKey)
  Errors : Option (List DeleteError)

/-! ## The server -/

/-- The order of its listings, and its continuation tokens: a token stands for the last key listed so
far. -/
structure Server where
  order : StorageKey → StorageKey → Ordering
  trans : Std.TransCmp order
  eqOnly : Std.LawfulEqCmp order
  tokenFor : Option StorageKey → JsString
  position : JsString → Option StorageKey
  position_tokenFor : ∀ last, position (tokenFor last) = last

/-- One listing and the deletion of its keys. -/
structure Turn where
  /-- How many keys the page has. -/
  size : Nat
  truncated : Bool
  /-- An empty page has no `Contents`. -/
  bare : Bool
  /-- `Deleted` is left out. -/
  quiet : Bool
  refuses : StorageKey → Option DeleteError

structure S3 where
  bucket : Bucket
  /-- What `DeleteObjects` has answered so far. -/
  answered : List DeleteObjectsOutput

/-- The keys after a position. -/
def Server.after (server : Server) (last : Option StorageKey) (key : StorageKey) : Bool :=
  last.all fun k => server.order k key == .lt

def Server.listing (server : Server) (bucket : Bucket) (keyPrefix : JsString)
    (last : Option StorageKey) : List StorageKey :=
  (Query.orderBy server.order bucket.keys).filter fun key =>
    keyPrefix.isPrefixOf key && server.after last key

/-- `none` when the server could not have answered so. -/
def Server.listObjectsV2 (server : Server) (turn : Turn) (bucket : Bucket)
    (input : ListObjectsV2Input) : Option ListObjectsV2Output :=
  let last := input.ContinuationToken.bind server.position
  let rest := server.listing bucket input.Prefix last
  let keys := rest.take turn.size
  if turn.size ≤ input.MaxKeys ∧ turn.size ≤ rest.length ∧
      (turn.truncated = false → turn.size = rest.length) then
    some {
      Contents := if turn.bare && keys.isEmpty then none else some (keys.map some)
      IsTruncated := turn.truncated
      NextContinuationToken :=
        if turn.truncated then some (server.tokenFor (keys.getLast?.or last)) else none }
  else none

def eraseAll (bucket : Bucket) (keys : List StorageKey) : Bucket := keys.foldl (fun b key => b.erase key) bucket

/-- `DeleteObjects`, of 1000 keys at most (`none` when there are more). -/
def S3.deleteObjects (s3 : S3) (turn : Turn) (keys : List StorageKey) :
    Option (DeleteObjectsOutput × S3) :=
  if keys.length ≤ 1000 then
    let erased := keys.filter fun key => (turn.refuses key).isNone
    let output : DeleteObjectsOutput := {
      Deleted := if turn.quiet then none else some erased
      Errors := some (keys.filterMap turn.refuses) }
    some (output, ⟨eraseAll s3.bucket erased, s3.answered ++ [output]⟩)
  else none

/-! ## The client -/

def DELETE_BATCH_SIZE : Nat := 1000

/-- The message of the error (`:172-180`). -/
def failedToDelete (keyPrefix : JsString) (failures : List DeleteError) : JsString :=
  js "Failed to delete " ++ decimal failures.length ++ js " object(s) under \"" ++ keyPrefix ++ js "\": " ++
    (js ", ").intercalate (failures.map fun failure =>
      failure.Key.getD (js "?") ++ js " (" ++ failure.Code.getD (js "?") ++ js ")")

/-- The keys of one page are deleted (`:158-183`); what is counted is what the server confirms. -/
def deleteKeys (turn : Turn) (s3 : S3) (keyPrefix : JsString) (keys : List StorageKey) :
    Option (Except JsString Nat × S3) :=
  if 0 < keys.length then do
    let (result, s3) ← s3.deleteObjects turn keys
    let failures := result.Errors.getD []
    if 0 < failures.length then return (.error (failedToDelete keyPrefix failures), s3)
    return (.ok ((result.Deleted.map List.length).getD keys.length), s3)
  else some (.ok 0, s3)

/-- The loop (`:145-189`). -/
def deletePages (server : Server) (keyPrefix : JsString) : List Turn → S3 → Option JsString → Nat →
    Option (Except JsString Nat × S3)
  | [], _, _, _ => none
  | turn :: turns, s3, continuationToken, deleted => do
    let listed ← server.listObjectsV2 turn s3.bucket ⟨keyPrefix, DELETE_BATCH_SIZE, continuationToken⟩
    let keys := (listed.Contents.getD []).reduceOption
    match ← deleteKeys turn s3 keyPrefix keys with
    | (.error message, s3) => return (.error message, s3)
    | (.ok confirmed, s3) =>
      match if listed.IsTruncated then listed.NextContinuationToken else none with
      | none => return (.ok (deleted + confirmed), s3)
      | some token => deletePages server keyPrefix turns s3 (some token) (deleted + confirmed)

def deleteByPrefix (server : Server) (turns : List Turn) (keyPrefix : JsString) (s3 : S3) :
    Option (Except JsString Nat × S3) :=
  if keyPrefix.length = 0 then some (.error (js "deleteByPrefix requires a non-empty prefix"), s3)
  else deletePages server keyPrefix turns s3 none 0

/-- A way to cut `n` keys into pages: all but the last say that there are more. -/
inductive IsCut : List Turn → Nat → Prop
  | last {turn : Turn} : turn.truncated = false → turn.size ≤ DELETE_BATCH_SIZE → IsCut [turn] turn.size
  | more {turn : Turn} {turns : List Turn} {n : Nat} : turn.truncated = true →
      turn.size ≤ DELETE_BATCH_SIZE → IsCut turns n → IsCut (turn :: turns) (turn.size + n)

/-! ## What one round does -/

variable {server : Server} {turn : Turn} {turns : List Turn} {bucket bucket' : Bucket} {s3 s3' : S3}
  {keyPrefix : JsString} {last : Option StorageKey} {token : Option JsString} {key : StorageKey}
  {keys : List StorageKey}

theorem lookup_eraseAll : (eraseAll bucket keys).lookup key =
    if key ∈ keys then none else bucket.lookup key := by
  induction keys generalizing bucket with
  | nil => rfl
  | cons k keys ih =>
    rw [show eraseAll bucket (k :: keys) = eraseAll (bucket.erase k) keys from rfl, ih]
    by_cases hk : key = k
    · subst hk
      simp
    · simp [hk, AList.lookup_erase_ne hk]

theorem mem_bucket_iff : key ∈ bucket ↔ bucket.lookup key ≠ none := by
  rw [← AList.lookup_isSome, Option.isSome_iff_ne_none]

theorem mem_listing : key ∈ server.listing bucket keyPrefix last ↔
    key ∈ bucket ∧ keyPrefix <+: key ∧ server.after last key = true := by
  rw [Server.listing, List.mem_filter, Query.mem_orderBy, AList.mem_keys, Bool.and_eq_true,
    List.isPrefixOf_iff_prefix]

theorem nodup_listing (server : Server) (bucket : Bucket) (keyPrefix : JsString)
    (last : Option StorageKey) : (server.listing bucket keyPrefix last).Nodup :=
  (Query.perm_orderBy.nodup_iff.2 bucket.keys_nodup).filter _

/-- A listing is in strict order. -/
theorem pairwise_listing (server : Server) (bucket : Bucket) (keyPrefix : JsString)
    (last : Option StorageKey) : (server.listing bucket keyPrefix last).Pairwise
    fun a b => server.order a b = .lt := by
  have := server.trans
  have := server.eqOnly
  have hle : (server.listing bucket keyPrefix last).Pairwise fun a b => (server.order a b).isLE = true :=
    Query.pairwise_orderBy.sublist List.filter_sublist
  refine (hle.and (nodup_listing server bucket keyPrefix last)).imp fun {a b} h => ?_
  obtain ⟨h, hne⟩ := h
  cases hc : server.order a b with
  | lt => rfl
  | eq => exact absurd (Std.LawfulEqCmp.eq_of_compare hc) hne
  | gt => rw [hc] at h; cases h

/-- No key of the prefix is left at the position or before it. -/
def Clean (server : Server) (bucket : Bucket) (keyPrefix : JsString) (last : Option StorageKey) : Prop :=
  ∀ key ∈ bucket, keyPrefix <+: key → server.after last key = true

theorem clean_start : Clean server bucket keyPrefix none := fun _ _ _ => rfl

theorem mem_eraseAll : key ∈ eraseAll bucket keys ↔ key ∈ bucket ∧ key ∉ keys := by
  rw [mem_bucket_iff, mem_bucket_iff, lookup_eraseAll]
  by_cases hk : key ∈ keys <;> simp [hk]

/-- What is not on the page comes after it. -/
theorem mem_drop_listing {n : Nat} (hclean : Clean server bucket keyPrefix last) :
    key ∈ (server.listing bucket keyPrefix last).drop n ↔
      key ∈ eraseAll bucket ((server.listing bucket keyPrefix last).take n) ∧ keyPrefix <+: key := by
  have hsplit := List.take_append_drop n (server.listing bucket keyPrefix last)
  have hnodup := nodup_listing server bucket keyPrefix last
  rw [mem_eraseAll]
  constructor
  · intro h
    obtain ⟨hb, hp, -⟩ := mem_listing.1 (List.mem_of_mem_drop h)
    rw [← hsplit, List.nodup_append] at hnodup
    exact ⟨⟨hb, fun htake => hnodup.2.2 key htake key h rfl⟩, hp⟩
  · rintro ⟨⟨hb, htake⟩, hp⟩
    have hmem : key ∈ server.listing bucket keyPrefix last := mem_listing.2 ⟨hb, hp, hclean key hb hp⟩
    rw [← hsplit, List.mem_append] at hmem
    exact hmem.resolve_left htake

theorem clean_step {n : Nat} (hclean : Clean server bucket keyPrefix last) :
    Clean server (eraseAll bucket ((server.listing bucket keyPrefix last).take n)) keyPrefix
      (((server.listing bucket keyPrefix last).take n).getLast?.or last) := by
  intro key hb hp
  have hdrop := (mem_drop_listing (n := n) hclean).2 ⟨hb, hp⟩
  cases hlast : ((server.listing bucket keyPrefix last).take n).getLast? with
  | none => exact hclean key (mem_eraseAll.1 hb).1 hp
  | some k =>
    have hpair := pairwise_listing server bucket keyPrefix last
    rw [← List.take_append_drop n (server.listing bucket keyPrefix last), List.pairwise_append] at hpair
    have hlt := hpair.2.2 k (List.mem_of_getLast? hlast) key hdrop
    simp [Server.after, hlt]

theorem listing_step {n : Nat} (hclean : Clean server bucket keyPrefix last) :
    (server.listing (eraseAll bucket ((server.listing bucket keyPrefix last).take n)) keyPrefix
      (((server.listing bucket keyPrefix last).take n).getLast?.or last)).Perm
    ((server.listing bucket keyPrefix last).drop n) := by
  refine (List.perm_ext_iff_of_nodup (nodup_listing ..)
    ((nodup_listing ..).sublist (List.drop_sublist _ _))).2 fun key => ?_
  rw [mem_drop_listing hclean, mem_listing]
  constructor
  · exact fun h => ⟨h.1, h.2.1⟩
  · exact fun h => ⟨h.1, h.2, clean_step hclean key h.1 h.2⟩

/-- The page the server answers with. -/
theorem listObjectsV2_eq {n : Nat} (hsize : turn.size ≤ DELETE_BATCH_SIZE)
    (hlen : (server.listing bucket keyPrefix last).length = turn.size + n)
    (htoken : token.bind server.position = last) (hn : turn.truncated = false → n = 0) :
    ∃ listed, server.listObjectsV2 turn bucket ⟨keyPrefix, DELETE_BATCH_SIZE, token⟩ = some listed ∧
      (listed.Contents.getD []).reduceOption = (server.listing bucket keyPrefix last).take turn.size ∧
      listed.IsTruncated = turn.truncated ∧ listed.NextContinuationToken =
        if turn.truncated then some (server.tokenFor
          (((server.listing bucket keyPrefix last).take turn.size).getLast?.or last)) else none := by
  have hlegal : turn.size ≤ DELETE_BATCH_SIZE ∧
      turn.size ≤ (server.listing bucket keyPrefix last).length ∧
      (turn.truncated = false → turn.size = (server.listing bucket keyPrefix last).length) :=
    ⟨hsize, by omega, fun h => by rw [hlen, hn h, Nat.add_zero]⟩
  refine ⟨_, by simp only [Server.listObjectsV2, htoken]; exact if_pos hlegal, ?_, rfl, rfl⟩
  split
  · next h =>
    rw [Bool.and_eq_true, List.isEmpty_iff] at h
    rw [h.2]
    rfl
  · rw [Option.getD_some, List.reduceOption, List.filterMap_map]
    exact List.filterMap_some

/-- Some key was not deleted. -/
def DeleteObjectsOutput.reports (output : DeleteObjectsOutput) : Bool :=
  0 < (output.Errors.getD []).length

/-- How the deletion of a page ends. -/
inductive Batch (s3 : S3) (keys : List StorageKey) : Except JsString Nat → S3 → Prop
  | confirmed {s3' : S3} (new : List DeleteObjectsOutput) : s3'.bucket = eraseAll s3.bucket keys →
      s3'.answered = s3.answered ++ new → (∀ output ∈ new, output.reports = false) →
      Batch s3 keys (.ok keys.length) s3'
  | refused {s3' : S3} (message : JsString) (erased : List StorageKey) (output : DeleteObjectsOutput) :
      erased ⊆ keys → s3'.bucket = eraseAll s3.bucket erased →
      s3'.answered = s3.answered ++ [output] → output.reports = true →
      Batch s3 keys (.error message) s3'

theorem deleteKeys_batch (turn : Turn) (s3 : S3) (keyPrefix : JsString) (h : keys.length ≤ 1000) :
    ∃ result s3', deleteKeys turn s3 keyPrefix keys = some (result, s3') ∧ Batch s3 keys result s3' := by
  unfold deleteKeys
  split
  · simp only [S3.deleteObjects, if_pos h, Option.bind_eq_bind, Option.bind_some, Option.getD_some]
    cases hrefused : keys.filterMap turn.refuses with
    | nil =>
      have hall : keys.filter (fun key => (turn.refuses key).isNone) = keys :=
        List.filter_eq_self.2 fun key hk => by
          simpa using List.filterMap_eq_nil_iff.1 hrefused key hk
      rw [hall]
      cases turn.quiet <;> exact ⟨_, _, rfl, .confirmed [_] rfl rfl (by simp [DeleteObjectsOutput.reports])⟩
    | cons e errors =>
      exact ⟨_, _, rfl, .refused _ _ _ (List.filter_subset_self _) rfl rfl
        (by simp [DeleteObjectsOutput.reports])⟩
  · next hempty =>
    obtain rfl : keys = [] := List.eq_nil_of_length_eq_zero (by omega)
    exact ⟨_, _, rfl, .confirmed [] rfl (by simp) (by simp)⟩

/-! ## The loop -/

/-- What a call has done to the bucket, and how it ends, `n` keys being left to delete. -/
structure Erasing (keyPrefix : JsString) (s3 : S3) (n : Nat) (new : List DeleteObjectsOutput)
    (result : Except JsString Nat) (s3' : S3) : Prop where
  answered : s3'.answered = s3.answered ++ new
  /-- No object is altered, and none goes but those of the prefix. -/
  touched : ∀ key, s3'.bucket.lookup key = s3.bucket.lookup key ∨
    keyPrefix <+: key ∧ s3'.bucket.lookup key = none
  confirmed : (∀ output ∈ new, output.reports = false) →
    result = .ok n ∧ ∀ key ∈ s3'.bucket, ¬ keyPrefix <+: key
  refused : (∃ output ∈ new, output.reports = true) → ∃ message, result = .error message

theorem touched_eraseAll (h : ∀ key ∈ keys, keyPrefix <+: key) (hb : bucket' = eraseAll bucket keys)
    (key : StorageKey) : bucket'.lookup key = bucket.lookup key ∨
      keyPrefix <+: key ∧ bucket'.lookup key = none := by
  rw [hb, lookup_eraseAll]
  by_cases hk : key ∈ keys
  · exact .inr ⟨h key hk, if_pos hk⟩
  · exact .inl (if_neg hk)

theorem length_take_listing (server : Server) (bucket : Bucket) (keyPrefix : JsString)
    (last : Option StorageKey) {n : Nat} (h : n ≤ DELETE_BATCH_SIZE) :
    ((server.listing bucket keyPrefix last).take n).length ≤ 1000 :=
  (List.length_take_le _ _).trans h

theorem prefix_of_mem_take {n : Nat} (h : key ∈ (server.listing bucket keyPrefix last).take n) :
    keyPrefix <+: key :=
  (mem_listing.1 (List.mem_of_mem_take h)).2.1

/-- A page that is refused ends the call. -/
theorem Batch.erasing_refused {n : Nat} {message : JsString}
    (h : Batch s3 keys (.error message) s3') (hkeys : ∀ key ∈ keys, keyPrefix <+: key) :
    ∃ new, Erasing keyPrefix s3 n new (.error message) s3' := by
  cases h with
  | refused _ erased output hsub hbucket hanswered hreports =>
    refine ⟨[output], hanswered, touched_eraseAll (fun key hk => hkeys key (hsub hk)) hbucket,
      fun hnone => ?_, fun _ => ⟨message, rfl⟩⟩
    rw [hnone output (List.mem_singleton_self _)] at hreports
    cases hreports

/-- A page that is confirmed ends it as well, when nothing is left. -/
theorem Batch.erasing_last {confirmed : Nat} (h : Batch s3 keys (.ok confirmed) s3')
    (hkeys : ∀ key ∈ keys, keyPrefix <+: key) (hgone : ∀ key ∈ s3'.bucket, ¬ keyPrefix <+: key)
    (deleted : Nat) :
    ∃ new, Erasing keyPrefix s3 (deleted + keys.length) new (.ok (deleted + confirmed)) s3' := by
  cases h with
  | confirmed new hbucket hanswered hnone =>
    refine ⟨new, hanswered, touched_eraseAll hkeys hbucket, fun _ => ⟨rfl, hgone⟩, ?_⟩
    rintro ⟨output, ho, hr⟩
    rw [hnone output ho] at hr
    cases hr

/-- A page that is confirmed, and what the rest of the call does. -/
theorem Batch.erasing_then {confirmed n : Nat} {s3₁ : S3} {new : List DeleteObjectsOutput}
    {result : Except JsString Nat} (h : Batch s3 keys (.ok confirmed) s3₁)
    (hkeys : ∀ key ∈ keys, keyPrefix <+: key) (he : Erasing keyPrefix s3₁ n new result s3') :
    ∃ new', Erasing keyPrefix s3 n new' result s3' := by
  cases h with
  | confirmed first hbucket hanswered hnone =>
    refine ⟨first ++ new, by rw [he.answered, hanswered, List.append_assoc], fun key => ?_,
      fun hall => he.confirmed fun o ho => hall o (List.mem_append_right _ ho), ?_⟩
    · rcases he.touched key with h | h
      · rw [h]
        exact touched_eraseAll hkeys hbucket key
      · exact .inr h
    · rintro ⟨output, ho, hr⟩
      rcases List.mem_append.1 ho with ho | ho
      · rw [hnone output ho] at hr
        cases hr
      · exact he.refused ⟨output, ho, hr⟩

theorem Batch.ok {confirmed : Nat} (h : Batch s3 keys (.ok confirmed) s3') :
    s3'.bucket = eraseAll s3.bucket keys ∧ confirmed = keys.length := by
  cases h with
  | confirmed new hbucket hanswered hnone => exact ⟨hbucket, rfl⟩

theorem deletePages_erasing (deleted : Nat) {n : Nat} (hcut : IsCut turns n)
    (hn : (server.listing s3.bucket keyPrefix last).length = n)
    (htoken : token.bind server.position = last) (hclean : Clean server s3.bucket keyPrefix last) :
    ∃ new result s3', deletePages server keyPrefix turns s3 token deleted = some (result, s3') ∧
      Erasing keyPrefix s3 (deleted + n) new result s3' := by
  induction hcut generalizing s3 token last deleted with
  | @last turn htruncated hsize =>
    obtain ⟨listed, hlisted, hkeys, htr, hnext⟩ := listObjectsV2_eq (n := 0) hsize hn htoken fun _ => rfl
    obtain ⟨result, s3₁, hdel, hbatch⟩ := deleteKeys_batch turn s3 keyPrefix
      (length_take_listing server s3.bucket keyPrefix last hsize)
    simp only [deletePages, hlisted, hkeys, hdel, Option.bind_eq_bind, Option.bind_some]
    cases result with
    | error message =>
      obtain ⟨new, he⟩ := hbatch.erasing_refused fun key => prefix_of_mem_take
      exact ⟨new, _, _, rfl, he⟩
    | ok confirmed =>
      -- the page is the whole listing
      have hgone : ∀ key ∈ s3₁.bucket, ¬ keyPrefix <+: key := by
        intro key hb hp
        rw [hbatch.ok.1] at hb
        have hdrop := (mem_drop_listing hclean).2 ⟨hb, hp⟩
        rw [List.drop_of_length_le hn.le] at hdrop
        cases hdrop
      obtain ⟨new, he⟩ := hbatch.erasing_last (fun key => prefix_of_mem_take) hgone deleted
      rw [List.length_take, hn, Nat.min_self] at he
      rw [htr, htruncated]
      exact ⟨new, _, _, rfl, he⟩
  | @more turn turns n htruncated hsize _ ih =>
    obtain ⟨listed, hlisted, hkeys, htr, hnext⟩ := listObjectsV2_eq hsize hn htoken
      fun h => by rw [htruncated] at h; cases h
    obtain ⟨result, s3₁, hdel, hbatch⟩ := deleteKeys_batch turn s3 keyPrefix
      (length_take_listing server s3.bucket keyPrefix last hsize)
    simp only [deletePages, hlisted, hkeys, hdel, Option.bind_eq_bind, Option.bind_some]
    cases result with
    | error message =>
      obtain ⟨new, he⟩ := hbatch.erasing_refused fun key => prefix_of_mem_take
      exact ⟨new, _, _, rfl, he⟩
    | ok confirmed =>
      obtain ⟨hbucket, hconfirmed⟩ := hbatch.ok
      -- the rest of the listing, from the bucket without this page
      have hrest : (server.listing s3₁.bucket keyPrefix
          (((server.listing s3.bucket keyPrefix last).take turn.size).getLast?.or last)).length = n := by
        rw [hbucket, (listing_step hclean).length_eq, List.length_drop, hn, Nat.add_sub_cancel_left]
      obtain ⟨new, result, s3', hrun, he⟩ := ih (deleted + confirmed) hrest
        (show (some (server.tokenFor _)).bind server.position = _ from server.position_tokenFor _)
        (by rw [hbucket]; exact clean_step hclean)
      obtain ⟨new', he⟩ := hbatch.erasing_then (fun key => prefix_of_mem_take) he
      rw [hconfirmed, List.length_take, hn, Nat.min_eq_left (Nat.le_add_right _ _), Nat.add_assoc] at he
      rw [htr, hnext, htruncated]
      exact ⟨new', result, s3', hrun, he⟩

/-! ## The whole call -/

/-- How many keys the prefix has. -/
def keysUnder (bucket : Bucket) (keyPrefix : JsString) : Nat :=
  bucket.keys.countP fun key => keyPrefix.isPrefixOf key

theorem length_listing (server : Server) (bucket : Bucket) (keyPrefix : JsString) :
    (server.listing bucket keyPrefix none).length = keysUnder bucket keyPrefix := by
  rw [Server.listing, ← List.countP_eq_length_filter, Query.perm_orderBy.countP_eq, keysUnder]
  exact List.countP_congr fun key _ => by simp [Server.after]

theorem deleteByPrefix_erasing (server : Server) (hne : keyPrefix ≠ [])
    (hcut : IsCut turns (keysUnder s3.bucket keyPrefix)) :
    ∃ new result s3', deleteByPrefix server turns keyPrefix s3 = some (result, s3') ∧
      Erasing keyPrefix s3 (keysUnder s3.bucket keyPrefix) new result s3' := by
  obtain ⟨new, result, s3', hrun, he⟩ := deletePages_erasing 0 hcut
    (length_listing server s3.bucket keyPrefix) (show none.bind server.position = none from rfl)
    clean_start
  rw [Nat.zero_add] at he
  refine ⟨new, result, s3', ?_, he⟩
  rw [deleteByPrefix, if_neg (by simpa using hne), hrun]

/-- The prefix is gone and nothing else has changed. -/
def Erased (keyPrefix : JsString) (bucket bucket' : Bucket) : Prop :=
  ∀ key, bucket'.lookup key = if keyPrefix <+: key then none else bucket.lookup key

theorem Erasing.erased {n : Nat} {new : List DeleteObjectsOutput} {result : Except JsString Nat}
    (h : Erasing keyPrefix s3 n new result s3') (hnone : ∀ output ∈ new, output.reports = false) :
    Erased keyPrefix s3.bucket s3'.bucket := by
  intro key
  split
  · next hp =>
    by_contra hkey
    exact (h.confirmed hnone).2 key (mem_bucket_iff.2 hkey) hp
  · next hp => exact (h.touched key).resolve_right fun ht => hp ht.1

/-- Whatever an earlier call left of the prefix. -/
theorem Erased.after_touched {bucket'' : Bucket}
    (ht : ∀ key, bucket'.lookup key = bucket.lookup key ∨
      keyPrefix <+: key ∧ bucket'.lookup key = none)
    (h : Erased keyPrefix bucket' bucket'') : Erased keyPrefix bucket bucket'' := by
  intro key
  rw [h key]
  split
  · rfl
  · next hp => exact (ht key).resolve_right fun ht => hp ht.1

/-- `requests/<id>/` -/
def requestPrefix (requestId : JsString) : JsString := js "requests/" ++ requestId ++ js "/"

/-- What stands before the first `/`. -/
theorem takeWhile_segment {segment rest : JsString} (h : 0x2f ∉ segment) :
    (segment ++ 0x2f :: rest).takeWhile (fun c => c != 0x2f) = segment := by
  rw [List.takeWhile_append_of_pos fun c hc => by simpa using ne_of_mem_of_not_mem hc h,
    List.takeWhile_cons_of_neg (by simp), List.append_nil]

/-- Of the keys that are built, it starts those of its request. -/
theorem requestPrefix_iff {n : JsString → JsString} {random : List UInt8}
    {requestId id itemId name : JsString} (hid : 0x2f ∉ id) (hrequest : 0x2f ∉ requestId) :
    requestPrefix id <+: Deposits.buildStorageKey n random requestId itemId name ↔ requestId = id := by
  constructor
  · rintro ⟨rest, h⟩
    have hkey : id ++ 0x2f :: rest = requestId ++ 0x2f :: (js "items/" ++ itemId ++ js "/" ++
        Deposits.hex random ++ js "-" ++ Deposits.safeName n name) := by
      simp only [requestPrefix, Deposits.buildStorageKey, Deposits.itemPrefix, List.append_assoc,
        List.append_cancel_left_eq] at h
      simpa [js] using h
    rw [← takeWhile_segment hid, hkey, takeWhile_segment hrequest]
  · rintro rfl
    simp [requestPrefix, Deposits.buildStorageKey, Deposits.itemPrefix, js]

/-- **`deleteByPrefix` erases exactly the prefix.** For every bucket, prefix and way to cut the listing into
pages, the call ends. When every key is confirmed, the keys of the prefix are gone, nothing else has
changed, and the number returned is theirs. When a key is refused it throws, has touched nothing else, and
a later call that meets no refusal finishes the job. Under `requests/<id>/` are the objects of that request
and of no other. -/
theorem prefix_erased (server : Server) (keyPrefix : JsString) (hne : keyPrefix ≠ []) (s3 : S3)
    (turns : List Turn) (hcut : IsCut turns (keysUnder s3.bucket keyPrefix)) :
    ∃ new result s3', deleteByPrefix server turns keyPrefix s3 = some (result, s3') ∧
      s3'.answered = s3.answered ++ new ∧
      ((∀ output ∈ new, output.reports = false) →
        result = .ok (keysUnder s3.bucket keyPrefix) ∧ Erased keyPrefix s3.bucket s3'.bucket ∧
        ∀ n random requestId itemId name id, 0x2f ∉ requestId → 0x2f ∉ id →
          keyPrefix = requestPrefix id →
          s3'.bucket.lookup (Deposits.buildStorageKey n random requestId itemId name) =
            if requestId = id then none
            else s3.bucket.lookup (Deposits.buildStorageKey n random requestId itemId name)) ∧
      ((∃ output ∈ new, output.reports = true) →
        (∃ message, result = .error message) ∧
        (∀ key, s3'.bucket.lookup key = s3.bucket.lookup key ∨
          keyPrefix <+: key ∧ s3'.bucket.lookup key = none) ∧
        ∀ turns', IsCut turns' (keysUnder s3'.bucket keyPrefix) →
          ∃ new' result' s3'', deleteByPrefix server turns' keyPrefix s3' = some (result', s3'') ∧
            s3''.answered = s3'.answered ++ new' ∧
            ((∀ output ∈ new', output.reports = false) →
              result' = .ok (keysUnder s3'.bucket keyPrefix) ∧
              Erased keyPrefix s3.bucket s3''.bucket)) := by
  obtain ⟨new, result, s3', hrun, he⟩ := deleteByPrefix_erasing server hne hcut
  refine ⟨new, result, s3', hrun, he.answered, fun hnone => ?_, fun hreport => ?_⟩
  · refine ⟨(he.confirmed hnone).1, he.erased hnone, fun n random requestId itemId name id hr hid e => ?_⟩
    rw [he.erased hnone, e]
    exact if_congr (requestPrefix_iff hid hr) rfl rfl
  · refine ⟨he.refused hreport, he.touched, fun turns' hcut' => ?_⟩
    obtain ⟨new', result', s3'', hrun', he'⟩ := deleteByPrefix_erasing server hne hcut'
    exact ⟨new', result', s3'', hrun', he'.answered, fun hnone =>
      ⟨(he'.confirmed hnone).1, (he'.erased hnone).after_touched he.touched⟩⟩

/-! ### Three pages, one of them empty -/

/-- A token is the last key after a mark. -/
def lexical : Server where
  order := compare
  trans := inferInstance
  eqOnly := inferInstance
  tokenFor last := last.elim [] (0x3e :: ·)
  position token := token.tail?
  position_tokenFor last := by cases last <;> rfl

/-- Two objects of one request and one of another. -/
def twoRequests : S3 where
  bucket := (((∅ : Bucket).insert (js "requests/r1/items/i/0-a") ⟨[1], js "image/png"⟩).insert
    (js "requests/r10/items/j/0-b") ⟨[2], js "image/png"⟩).insert
    (js "requests/r1/items/k/0-c") ⟨[3], js "image/png"⟩
  answered := []

def threePages : List Turn :=
  [⟨1, true, false, false, fun _ => none⟩, ⟨0, true, true, false, fun _ => none⟩,
    ⟨1, false, false, true, fun _ => none⟩]

theorem prefix_erased_threePages : ∃ s3',
    deleteByPrefix lexical threePages (requestPrefix (js "r1")) twoRequests = some (.ok 2, s3') ∧
    Erased (requestPrefix (js "r1")) twoRequests.bucket s3'.bucket := by
  have hcut : IsCut threePages (keysUnder twoRequests.bucket (requestPrefix (js "r1"))) :=
    .more rfl (by decide) (.more rfl (by decide) (.last rfl (by decide)))
  obtain ⟨new, result, s3', hrun, hanswered, hconfirmed, -⟩ := prefix_erased lexical
    (requestPrefix (js "r1")) (by decide) twoRequests threePages hcut
  have hquiet : ((deleteByPrefix lexical threePages (requestPrefix (js "r1")) twoRequests).map
      fun r => r.2.answered.all fun output => !output.reports) = some true := by decide +kernel
  rw [hrun, Option.map_some, hanswered] at hquiet
  obtain ⟨rfl, herased, -⟩ := hconfirmed fun output ho => by
    simpa using List.all_eq_true.1 (Option.some.inj hquiet) output (List.mem_append_right _ ho)
  exact ⟨s3', hrun, herased⟩

end DepositPortal.Storage
