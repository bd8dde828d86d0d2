import LensoServiceAccount.Library.Keyset
import LensoServiceAccount.Capacity
import LensoServiceAccount.Evidence
import LensoServiceAccount.Secrets

/-! Walks through the pages of an organization. -/

namespace LensoServiceAccount
variable {E : Environment}

/-- `b` comes after `a`. -/
def Collation.lt (o : Collation) (a b : String) : Prop := (!o.le b a) = true

instance (o : Collation) : DecidableRel o.lt := fun a b => inferInstanceAs (Decidable ((!o.le b a) = true))

lemma Collation.lt_iff {o : Collation} {a b : String} : o.lt a b ↔ o.le a b = true ∧ a ≠ b := by
  rw [lt,Bool.not_eq_true',← Bool.not_eq_true]
  constructor
  · intro h
    refine ⟨(o.total a b).resolve_right h,?_⟩
    rintro rfl
    exact h (o.refl a)
  · rintro ⟨hle,hne⟩ h
    exact hne (o.antisymm a b hle h)

instance (o : Collation) : IsTrans String o.lt where
  trans a b c hab hbc := by
    obtain ⟨hab,hne⟩ := Collation.lt_iff.mp hab
    obtain ⟨hbc,-⟩ := Collation.lt_iff.mp hbc
    refine Collation.lt_iff.mpr ⟨o.trans a b c hab hbc,?_⟩
    rintro rfl
    exact hne (o.antisymm a b hab hbc)

instance (o : Collation) : Std.Antisymm fun a b : String => o.le a b = true where
  antisymm := o.antisymm

instance (o : Collation) : IsTrans String fun a b : String => o.le a b = true where
  trans := o.trans

instance (o : Collation) : Std.Total fun a b : String => o.le a b = true where
  total := o.total

/-- Texts in the order of the database. -/
def Collation.sort (o : Collation) (ids : List String) : List String := ids.insertionSort fun a b => o.le a b = true

/-- The ids of the accounts of an organization, in the order of the database. -/
def Database.ids (o : Collation) (d : Database) (organizationId : String) : List String :=
  o.sort ((d.accounts.rows.filter fun a => a.organizationId = organizationId).map Account.serviceAccountId)

section Listing
variable {o : Collation} {d d' : Database} {organizationId : String} {after : Option String} {rows : List AccountRow}

lemma mem_ids {id : String} : id ∈ d.ids o organizationId ↔
    ∃ a, d.accounts.find id = some a ∧ a.organizationId = organizationId := by
  rw [Database.ids,Collation.sort,List.mem_insertionSort,List.mem_map]
  constructor
  · rintro ⟨a,ha,rfl⟩
    rw [List.mem_filter,decide_eq_true_eq] at ha
    exact ⟨a,Table.find_of_mem ha.1,ha.2⟩
  · rintro ⟨a,ha,ho⟩
    refine ⟨a,?_,Table.key_of_find ha⟩
    rw [List.mem_filter,decide_eq_true_eq]
    exact ⟨Table.mem_of_find ha,ho⟩

lemma ids_sorted : (d.ids o organizationId).Pairwise o.lt := by
  have hle : (d.ids o organizationId).Pairwise fun a b => o.le a b = true := List.pairwise_insertionSort _ _
  have hnodup : (d.ids o organizationId).Nodup := by
    refine (List.perm_insertionSort _ _).nodup_iff.mpr ?_
    exact (List.filter_sublist.map _).nodup d.accounts.nodup
  exact (hle.and hnodup).imp fun h => Collation.lt_iff.mpr h

/-- Sorting and leaving out may change places. -/
lemma sort_filter (o : Collation) (p : String → Bool) (ids : List String) : (o.sort ids).filter p = o.sort (ids.filter p) := by
  have hsorted : ∀ xs, (o.sort xs).Pairwise fun a b => o.le a b = true := fun xs => List.pairwise_insertionSort _ _
  refine List.Perm.eq_of_pairwise' ((hsorted ids).sublist List.filter_sublist) (hsorted _) ?_
  exact ((List.perm_insertionSort _ ids).filter p).trans (List.perm_insertionSort _ _).symm

/-- What `list_accounts` selects. -/
lemma listAccounts_ok {n : ℤ} {now : Time}
    (h : (Statement.listAccounts organizationId after n).execute o now d = .ok (rows, d')) :
    rows.map AccountRow.serviceAccountId = (Keyset.beyond o.lt (d.ids o organizationId) after).take n.toNat ∧
      ∀ row ∈ rows, row.organizationId = organizationId := by
  simp only [Statement.execute,Except.ok.injEq,Prod.mk.injEq] at h
  obtain ⟨rfl,-⟩ := h
  constructor
  · rw [Keyset.beyond,Database.ids,sort_filter,Collation.sort,List.filter_map,List.filter_filter,List.map_map,
      List.map_take]
    rw [show AccountRow.serviceAccountId ∘ accountRow o d = Account.serviceAccountId from rfl]
    rw [List.map_insertionSort (fun a b : Account => o.le a.serviceAccountId b.serviceAccountId = true)
      (fun a b => o.le a b = true) Account.serviceAccountId _ fun a _ b _ => Iff.rfl]
    congr 4
    funext a
    cases after with
    | none => simp
    | some cursor =>
      have hlt : decide (o.lt cursor a.serviceAccountId) = !o.le a.serviceAccountId cursor := Bool.decide_eq_true
      simp only [Option.all_some,Function.comp_apply,hlt,Bool.and_comm]
  · intro row hrow
    obtain ⟨a,ha,rfl⟩ := List.mem_map.mp hrow
    have hmem := (List.mem_insertionSort _).mp (List.mem_of_mem_take ha)
    rw [List.mem_filter,Bool.and_eq_true,decide_eq_true_eq] at hmem
    exact hmem.2.1

/-- The page that is made of what is there. -/
structure PageOf (o : Collation) (d : Database) (organizationId : String) (after : Option String) (limit : ℕ)
    (response : ListServiceAccountsResponse) : Prop where
  ids : response.accounts.map ServiceAccountSummary.serviceAccountId =
    Keyset.Request.page o.lt ⟨d.ids o organizationId,limit⟩ after
  organization : ∀ account ∈ response.accounts, account.organizationId = organizationId
  cursor : response.nextCursor = Keyset.Request.next o.lt ⟨d.ids o organizationId,limit⟩ after

lemma pageOf_listAnswer {limit : ℕ} {response : ListServiceAccountsResponse}
    (hrows : rows.map AccountRow.serviceAccountId =
      (Keyset.beyond o.lt (d.ids o organizationId) after).take (limit + 1))
    (hown : ∀ row ∈ rows, row.organizationId = organizationId) (h : listAnswer E limit rows = .ok (.ok response)) :
    PageOf o d organizationId after limit response := by
  cases hm : (rows.take limit).mapM (summary E) with
  | error e =>
    rw [listAnswer,hm] at h
    cases h
  | ok accounts =>
    rw [listAnswer,hm] at h
    obtain rfl := Except.ok.inj (Except.ok.inj h)
    have hpage : (rows.take limit).map AccountRow.serviceAccountId =
        Keyset.Request.page o.lt ⟨d.ids o organizationId,limit⟩ after := by
      rw [List.map_take,hrows,List.take_take,Keyset.Request.page,Nat.min_eq_left (Nat.le_succ limit)]
    have hlen : limit < rows.length ↔ limit < (Keyset.beyond o.lt (d.ids o organizationId) after).length := by
      rw [← List.length_map (f := AccountRow.serviceAccountId),hrows,List.length_take]
      omega
    refine ⟨?_,fun account haccount => ?_,?_⟩
    · rw [← hpage]
      exact map_of_mapM_ok (fun row account hs => (summary_ok hs).serviceAccountId) hm
    · obtain ⟨row,hrow,hs⟩ := mem_of_mapM_ok hm haccount
      rw [(summary_ok hs).organizationId]
      exact hown row (List.mem_of_mem_take hrow)
    · simp only [Keyset.Request.next,← hpage,List.getLast?_map,hlen]

end Listing

section Pages
variable {plugin : ServiceAccountPlugin E} {context : InvocationContext} {request : ListServiceAccountsRequest}
  {rows : List AccountRow} {response : ListServiceAccountsResponse} {c : Run (Call E) Reply} {e : CallStep E}

/-- The rows that a call of `list` has seen are those that it has selected. -/
lemma selects_of_path {es : List (CallStep E)} (hp : (protocol E).Path (store E).serial (.list plugin context request) es
    (.seen rows)) : ∃ x ∈ es, ∃ active limit, plugin.active = some active ∧
      parsePageLimit request.limit active.config.maxPageSize = some limit ∧
      rows.map AccountRow.serviceAccountId = (Keyset.beyond E.collation.lt
        (x.before.ids E.collation request.organizationId) request.after).take (limit + 1) ∧
      ∀ row ∈ rows, row.organizationId = request.organizationId := by
  generalize hφ : Phase.seen rows = φ at hp
  cases hp with
  | start hc ha => cases hφ
  | @move es φ₀ φ' o choice a x h hc ha hm hH =>
    subst hφ
    have hm' : Move _ φ₀ o a (.seen rows) := hm
    cases hm' with
    | random hφ => cases hφ
    | account hcall => cases hcall
    | @accounts _ _ _ _ active limit _ hcall hactive hlimit =>
      cases hcall
      obtain ⟨now,hx⟩ := execute_of_serial hH
      obtain ⟨hrows,hown⟩ := listAccounts_ok hx
      exact ⟨x,by simp,active,limit,hactive,hlimit,hrows,hown⟩

/-- A page is made of what is there when its call selects it. -/
theorem page_of_reply (hc : LockedConfig.Reachable (store E) Call.main Database.empty c) (he : e ∈ c.trace)
    (hcall : e.call = .list plugin context request) (ha : e.action = .reply (.list (.ok (.ok response)))) :
    ∃ x ∈ c.trace, x.tid = e.tid ∧ ∃ active limit, plugin.active = some active ∧
      parsePageLimit request.limit active.config.maxPageSize = some limit ∧
      PageOf E.collation x.before request.organizationId request.after limit response := by
  obtain ⟨post,pre,htr⟩ := List.append_of_mem he
  obtain ⟨p,φ,ho,hp,hpath,hl⟩ := reply_path hc htr ha
  obtain ⟨held,command,K,-,hK,-⟩ | ⟨held,rfl⟩ | ⟨rows,rfl,hshows⟩ | ⟨status,-,hr⟩ := Last.succeeds hl rfl
  · rw [hcall] at hK
    cases hK
  · have hcommand := ((ho.acting e.tid).presents _ _ held hp rfl).commandKey
    rw [hcall] at hcommand
    cases hcommand
  · rw [hcall] at hpath hshows
    obtain ⟨x,hx,active,limit,hactive,hlimit,hrows,hown⟩ := selects_of_path hpath
    obtain ⟨active',limit',hactive',hlimit',hr⟩ := hshows
    obtain rfl := Option.some.inj (hactive.symm.trans hactive')
    obtain rfl := Option.some.inj (hlimit.symm.trans hlimit')
    obtain ⟨hx,htid⟩ := Protocol.mem_own.mp hx
    refine ⟨x,?_,htid,active,limit,hactive,hlimit,pageOf_listAnswer hrows hown (Reply.list.inj hr).symm⟩
    rw [show c.trace = post ++ e :: pre from htr]
    simp [hx]
  · cases hr

end Pages

section Ids

/-- The ids that `create` generates. -/
def GeneratedId (id : String) : Prop := ∃ bytes : Bytes, bytes.length = 24 ∧ id = "sa_" ++ base64Encode bytes

/-- A generated id is one that `list` accepts as a cursor. -/
lemma GeneratedId.validToken {id : String} (h : GeneratedId id) : validToken id 128 = true := by
  obtain ⟨bytes,hlength,rfl⟩ := h
  have hlist : "sa_" ++ base64Encode bytes = String.ofList ("sa_".toList ++ base64Chars bytes) := by
    rw [String.ofList_append,String.ofList_toList,base64Encode]
  have hlen : ("sa_".toList ++ base64Chars bytes).length = 35 := by
    rw [List.length_append,length_base64Chars,hlength]
    rfl
  have hchars : ∀ c ∈ "sa_".toList ++ base64Chars bytes, secretChar c = true := by
    intro c hc
    rcases List.mem_append.mp hc with hc | hc
    · have hsa : "sa_".toList.all secretChar = true := by decide
      exact List.all_eq_true.mp hsa c hc
    · exact base64Chars_secretChar bytes c hc
  have hpart : SecretPart 1 ("sa_" ++ base64Encode bytes) := by
    rw [hlist]
    exact secretPart_ofList hchars (by omega) (by omega)
  have hvalid := ((secretPart_iff Nat.one_pos _).mp hpart).2
  simp only [LensoServiceAccount.validToken,validBytes,Bool.and_eq_true,List.all_eq_true,Bool.or_eq_true] at hvalid ⊢
  refine ⟨hvalid.1,fun c hc => (hvalid.2 c hc).imp_right fun h => ?_⟩
  simp only [List.contains_eq_mem,decide_eq_true_eq,List.mem_cons,List.not_mem_nil,or_false] at h ⊢
  rcases h with rfl | rfl <;> simp

/-- All accounts have generated ids. -/
theorem generated_invariant (E : Environment) : (protocol E).Invariant (store E).serial Database.empty fun _ d _ =>
    ∀ id a, d.accounts.find id = some a → GeneratedId id where
  init id a h := by simp [Database.empty] at h
  step {tr d p e p'} h hs id a ha := by
    have hm := (mutates_of_legal hs.legal).accountsStep
    rw [hs.before] at hm
    generalize ht : transactionOf e = t at hm
    cases hm with
    | same _ hsame => exact h id a (by rw [← hsame]; exact ha)
    | evolved _ b b' hv hb hev hput =>
      rw [hput,Table.find_put,key_account,hev.serviceAccountId] at ha
      split_ifs at ha with hid
      · exact h id b (by rw [← hid]; exact hb)
      · exact h id a ha
    | created r row hc =>
      obtain ⟨t,c,nonce,ciphertext,_,-,-,-,-,-,-,⟨hv,haccounts⟩,-⟩ := hc
      rw [haccounts,Table.find_put] at ha
      split_ifs at ha with hid
      · obtain ⟨φ,held,-,hask⟩ := step_asks hs ht
        cases hask with
        | create hcall hgen hr =>
          have hid' : r.serviceAccountId = id := hid
          exact hid' ▸ hr.serviceAccountId
      · exact h id a ha

end Ids

section Walks
variable {c : Run (Call E) Reply} {organizationId : String}

/-- A page, and the limit that it was asked for with. -/
structure Page where
  limit : ℕ
  response : ListServiceAccountsResponse

/-- A call of `list` for the organization has returned the page. -/
structure Returns (c : Run (Call E) Reply) (organizationId : String) (after : Option String) (page : Page) (e : CallStep E) :
    Prop where
  mem : e ∈ c.trace
  call : ∃ plugin context request active, e.call = .list plugin context request ∧ plugin.active = some active ∧
    request.organizationId = organizationId ∧ request.after = after ∧
    parsePageLimit request.limit active.config.maxPageSize = some page.limit
  reply : e.action = .reply (.list (.ok (.ok page.response)))

/-- The pages of calls that have been made since `early`, each with the cursor of the page before. -/
inductive Walks (c : Run (Call E) Reply) (organizationId : String) (early : List (CallStep E)) :
    Option String → List Page → Prop
  | last {after page e} (h : Returns c organizationId after page e) (hearly : ∀ x ∈ early, x.tid ≠ e.tid) :
      Walks c organizationId early after [page]
  | next {after page e cursor pages} (h : Returns c organizationId after page e) (hearly : ∀ x ∈ early, x.tid ≠ e.tid)
      (hcursor : page.response.nextCursor = some cursor) (hw : Walks c organizationId early (some cursor) pages) :
      Walks c organizationId early after (page :: pages)

/-- The accounts of all pages. -/
def accountsOfPages (pages : List Page) : List ServiceAccountSummary := pages.flatMap fun page => page.response.accounts

/-- What a walk that began in the state `d` returns. -/
structure Paginates (c : Run (Call E) Reply) (organizationId : String) (d : Database) (pages : List Page) : Prop where
  sorted : (accountsOfPages pages).Pairwise fun a b => E.collation.lt a.serviceAccountId b.serviceAccountId
  distinct : ((accountsOfPages pages).map ServiceAccountSummary.serviceAccountId).Nodup
  own : ∀ account ∈ accountsOfPages pages, account.organizationId = organizationId
  complete : (∃ page, pages.getLast? = some page ∧ page.response.nextCursor = none) → ∀ a,
    d.accounts.find a.serviceAccountId = some a → a.organizationId = organizationId →
      ∃ account ∈ accountsOfPages pages, account.serviceAccountId = a.serviceAccountId
  cursors : ∀ page ∈ pages, ∀ cursor, page.response.nextCursor = some cursor → validToken cursor 128 = true
  full : ∀ page ∈ pages, page.response.nextCursor.isSome = true → page.response.accounts.length = page.limit
  /-- Pages with a cursor are no more than the accounts that the organization has in the end. -/
  bounded : (pages.countP fun page => page.response.nextCursor.isSome) ≤ c.state.accountsOf organizationId

/-- The request that stands behind a page. -/
structure Answers (c : Run (Call E) Reply) (organizationId : String) (early : List (CallStep E)) (after : Option String)
    (page : Page) (q : Keyset.Request String) : Prop where
  ids : page.response.accounts.map ServiceAccountSummary.serviceAccountId = q.page E.collation.lt after
  own : ∀ account ∈ page.response.accounts, account.organizationId = organizationId
  cursor : page.response.nextCursor = q.next E.collation.lt after
  limit : q.limit = page.limit
  proper : q.Proper E.collation.lt
  snapshot : ∃ x ∈ c.trace, (∀ y ∈ early, y.tid ≠ x.tid) ∧ q.keys = x.before.ids E.collation organizationId

/-- The requests that stand behind the pages of a walk. -/
inductive Behind (c : Run (Call E) Reply) (organizationId : String) (early : List (CallStep E)) :
    Option String → List Page → List (Keyset.Request String) → Prop
  | last {after page q} (h : Answers c organizationId early after page q) : Behind c organizationId early after [page] [q]
  | next {after page q cursor pages qs} (h : Answers c organizationId early after page q)
      (hcursor : page.response.nextCursor = some cursor) (hb : Behind c organizationId early (some cursor) pages qs) :
      Behind c organizationId early after (page :: pages) (q :: qs)

section Behind
variable {early : List (CallStep E)} {after : Option String} {pages : List Page} {qs : List (Keyset.Request String)}
  {page : Page} {q : Keyset.Request String} {e : CallStep E}

lemma parsePageLimit_pos {value : String} {max limit : ℕ} (h : parsePageLimit value max = some limit) : 0 < limit := by
  have hpos := (Option.filter_eq_some_iff.mp h).2
  simp only [Bool.and_eq_true,decide_eq_true_eq] at hpos
  exact hpos.1.1

lemma Returns.answers (hc : LockedConfig.Reachable (store E) Call.main Database.empty c)
    (h : Returns c organizationId after page e) (hearly : ∀ x ∈ early, x.tid ≠ e.tid) :
    ∃ q, Answers c organizationId early after page q := by
  obtain ⟨plugin,context,request,active,hcall,hactive,rfl,rfl,hlimit⟩ := h.call
  obtain ⟨x,hx,htid,active',limit,hactive',hlimit',hpage⟩ := page_of_reply hc h.mem hcall h.reply
  obtain rfl := Option.some.inj (hactive.symm.trans hactive')
  obtain rfl := Option.some.inj (hlimit.symm.trans hlimit')
  refine ⟨⟨x.before.ids E.collation request.organizationId,page.limit⟩,hpage.ids,hpage.organization,hpage.cursor,rfl,
    ⟨ids_sorted,parsePageLimit_pos hlimit⟩,x,hx,?_,rfl⟩
  rwa [htid]

lemma Walks.behind (hc : LockedConfig.Reachable (store E) Call.main Database.empty c)
    (hw : Walks c organizationId early after pages) : ∃ qs, Behind c organizationId early after pages qs := by
  induction hw with
  | last h hearly =>
    obtain ⟨q,hq⟩ := h.answers hc hearly
    exact ⟨_,.last hq⟩
  | next h hearly hcursor hw ih =>
    obtain ⟨q,hq⟩ := h.answers hc hearly
    obtain ⟨qs,hqs⟩ := ih
    exact ⟨_,.next hq hcursor hqs⟩

lemma Behind.walk (hb : Behind c organizationId early after pages qs) : Keyset.Walk E.collation.lt after qs := by
  induction hb with
  | last h => exact .last _ _
  | next h hcursor hb ih => exact .next (h.cursor.symm.trans hcursor) ih

lemma Behind.ids (hb : Behind c organizationId early after pages qs) :
    (accountsOfPages pages).map ServiceAccountSummary.serviceAccountId = Keyset.walked E.collation.lt after qs := by
  induction hb with
  | last h => simp [accountsOfPages,Keyset.walked,h.ids]
  | next h hcursor hb ih =>
    rw [Keyset.walked,← h.cursor,hcursor,← ih,← h.ids]
    simp [accountsOfPages]

lemma Behind.cursors (hb : Behind c organizationId early after pages qs) :
    pages.map (fun page => page.response.nextCursor) = Keyset.cursors E.collation.lt after qs := by
  induction hb with
  | last h => simp [Keyset.cursors,h.cursor]
  | next h hcursor hb ih => rw [Keyset.cursors,List.map_cons,← h.cursor,hcursor,ih]

lemma Behind.answers (hb : Behind c organizationId early after pages qs) (hp : page ∈ pages) :
    ∃ after q, Answers c organizationId early after page q := by
  induction hb with
  | last h =>
    obtain rfl := List.mem_singleton.mp hp
    exact ⟨_,_,h⟩
  | next h hcursor hb ih =>
    rcases List.mem_cons.mp hp with rfl | hp
    · exact ⟨_,_,h⟩
    · exact ih hp

lemma Behind.answered (hb : Behind c organizationId early after pages qs) (hq : q ∈ qs) :
    ∃ after page, Answers c organizationId early after page q := by
  induction hb with
  | last h =>
    obtain rfl := List.mem_singleton.mp hq
    exact ⟨_,_,h⟩
  | next h hcursor hb ih =>
    rcases List.mem_cons.mp hq with rfl | hq
    · exact ⟨_,_,h⟩
    · exact ih hq

end Behind

/-- What is in the store before a step is there in the end. -/
lemma mem_ids_mono (hc : LockedConfig.Reachable (store E) Call.main Database.empty c) {x : CallStep E} (hx : x ∈ c.trace)
    {id : String} (h : id ∈ x.before.ids E.collation organizationId) : id ∈ c.state.ids E.collation organizationId := by
  obtain ⟨a,ha,ho⟩ := mem_ids.mp h
  obtain ⟨a',ha',hev⟩ := evolved (serializable hc) x hx id a (.inl ha)
  exact mem_ids.mpr ⟨a',ha',hev.organizationId.trans ho⟩

/-- What is there before a step is there before every step that is not earlier. -/
lemma mem_ids_later (hc : LockedConfig.Reachable (store E) Call.main Database.empty c) {later early : List (CallStep E)}
    {s x : CallStep E} (hs : c.trace = later ++ s :: early) (hx : x ∈ c.trace) (hearly : x ∉ early) {id : String}
    (h : id ∈ s.before.ids E.collation organizationId) : id ∈ x.before.ids E.collation organizationId := by
  rw [hs] at hx
  rcases List.mem_append.mp hx with hx | hx
  · obtain ⟨l,l',rfl⟩ := List.append_of_mem hx
    obtain ⟨d,hd,htr,hstate,-⟩ := (serializable hc).split (show c.trace = l ++ x :: (l' ++ s :: early) by simp [hs])
    obtain ⟨a,ha,ho⟩ := mem_ids.mp h
    obtain ⟨a',ha',hev⟩ := evolved hd s (by simp [htr]) id a (.inl ha)
    rw [hstate] at ha'
    exact mem_ids.mpr ⟨a',ha',hev.organizationId.trans ho⟩
  · rcases List.mem_cons.mp hx with rfl | hx
    · exact h
    · exact absurd hx hearly

lemma validToken_of_ids (hc : LockedConfig.Reachable (store E) Call.main Database.empty c) {x : CallStep E}
    (hx : x ∈ c.trace) {id : String} (h : id ∈ x.before.ids E.collation organizationId) : validToken id 128 = true := by
  obtain ⟨post,pre,htr⟩ := List.append_of_mem hx
  obtain ⟨p,p',hgenerated,-⟩ := (generated_invariant E).event (obeyed E) (serializable hc) htr
  obtain ⟨a,ha,-⟩ := mem_ids.mp h
  exact (hgenerated id a ha).validToken

lemma length_ids (o : Collation) (d : Database) (organizationId : String) :
    (d.ids o organizationId).length = d.accountsOf organizationId := by
  rw [Database.ids,Collation.sort,List.length_insertionSort,List.length_map]
  rfl

/-- Walks through the pages of an organization are complete, whatever else goes on. -/
theorem walk_paginates (hc : LockedConfig.Reachable (store E) Call.main Database.empty c) (organizationId : String)
    {later early : List (CallStep E)} {s : CallStep E} (hs : c.trace = later ++ s :: early) {pages : List Page}
    (hw : Walks c organizationId early none pages) : Paginates c organizationId s.before pages := by
  obtain ⟨qs,hb⟩ := hw.behind hc
  have hproper : ∀ q ∈ qs, q.Proper E.collation.lt := fun q hq => (hb.answered hq).choose_spec.choose_spec.proper
  have hsorted := hb.walk.sorted hproper
  have hnodup : (Keyset.walked E.collation.lt none qs).Nodup := hsorted.imp fun h => (Collation.lt_iff.mp h).2
  have hkeys : ∀ id ∈ Keyset.walked E.collation.lt none qs, id ∈ c.state.ids E.collation organizationId := by
    intro id hid
    obtain ⟨q,hq,hmem⟩ := Keyset.mem_walked hid
    obtain ⟨after,page,h⟩ := hb.answered hq
    obtain ⟨x,hx,-,hkeys⟩ := h.snapshot
    exact mem_ids_mono hc hx (hkeys ▸ hmem)
  refine ⟨?_,?_,?_,?_,?_,?_,?_⟩
  · rw [← List.pairwise_map,hb.ids]
    exact hsorted
  · rw [hb.ids]
    exact hnodup
  · intro account haccount
    obtain ⟨page,hpage,hmem⟩ := List.mem_flatMap.mp haccount
    exact (hb.answers hpage).choose_spec.choose_spec.own account hmem
  · rintro ⟨page,hlast,hnone⟩ a ha ho
    have hend : (Keyset.cursors E.collation.lt none qs).getLast? = some none := by
      rw [← hb.cursors,List.getLast?_map,hlast,Option.map_some,hnone]
    have hmem : a.serviceAccountId ∈ Keyset.walked E.collation.lt none qs := by
      refine hb.walk.complete hproper hend (fun q hq => ?_) (by simp)
      obtain ⟨after,page,h⟩ := hb.answered hq
      obtain ⟨x,hx,hearly,hkeys⟩ := h.snapshot
      rw [hkeys]
      exact mem_ids_later hc hs hx (fun hmem => hearly x hmem rfl) (mem_ids.mpr ⟨a,ha,ho⟩)
    rw [← hb.ids] at hmem
    exact List.mem_map.mp hmem
  · intro page hpage cursor hcursor
    obtain ⟨after,q,hq⟩ := hb.answers hpage
    obtain ⟨x,hx,-,hkeys⟩ := hq.snapshot
    have hmem := (Keyset.Request.mem_page (Keyset.Request.next_mem (hq.cursor.symm.trans hcursor))).1
    exact validToken_of_ids hc hx (hkeys ▸ hmem)
  · intro page hpage hcursor
    obtain ⟨after,q,hq⟩ := hb.answers hpage
    rw [hq.cursor] at hcursor
    rw [← List.length_map (f := ServiceAccountSummary.serviceAccountId),hq.ids,Keyset.Request.length_page hcursor,hq.limit]
  · have hcount := Keyset.count_cursors hproper none
    rw [← hb.cursors,List.countP_map] at hcount
    refine hcount.trans ?_
    rw [← length_ids E.collation]
    exact (List.subperm_of_subset hnodup hkeys).length_le

end Walks

/-- The cursor and the page of a step that returns a page. -/
def returned (organizationId : String) (e : CallStep E) : Option (Option String × Page) :=
  match e.call, e.action with
  | .list plugin _ request, .reply (.list (.ok (.ok response))) =>
    (plugin.active.bind fun active => parsePageLimit request.limit active.config.maxPageSize).bind fun limit =>
      if request.organizationId = organizationId then some (request.after,⟨limit,response⟩) else none
  | _, _ => none

lemma returns_of_returned {c : Run (Call E) Reply} {organizationId : String} {e : CallStep E} {after : Option String}
    {page : Page} (he : e ∈ c.trace) (h : returned organizationId e = some (after,page)) :
    Returns c organizationId after page e := by
  unfold returned at h
  split at h
  · next plugin context request response hcall hreply =>
    obtain ⟨limit,hlimit,hpage⟩ := Option.bind_eq_some_iff.mp h
    obtain ⟨active,hactive,hlimit⟩ := Option.bind_eq_some_iff.mp hlimit
    split_ifs at hpage with ho
    obtain ⟨rfl,rfl⟩ := Prod.mk.inj (Option.some.inj hpage)
    exact ⟨he,⟨plugin,context,request,active,hcall,hactive,ho,rfl,hlimit⟩,hreply⟩
  · cases h

/-- Calls `0` and `1` create two accounts, and calls `2` and `3` walk through them. -/
noncomputable def sampleWalk : List (LockedLabel (Call .plain) Choice Choice) :=
  sampleCreate ++ [.start (.create samplePlugin ⟨some "console"⟩ ⟨"k2","helper","org"⟩),.pool 1 {},
    .pool 1 { assertion := some ⟨"user","alice"⟩ },.pool 1 { membership := .ok ⟨true⟩ },
    .pool 1 { permission := .ok ⟨true⟩ },.pool 1 {},.pool 1 {},.pool 1 { entropy := some (List.replicate 24 1) },
    .pool 1 { identity := .ok ⟨"subject2"⟩ },.pool 1 { entropy := some (List.replicate 18 1) },
    .pool 1 { entropy := some (List.replicate 32 1) },.pool 1 { entropy := some (List.replicate 16 1) },
    .pool 1 { clock := seconds 100 },.enter 1,.within 1 {},.within 1 {},.within 1 {},.within 1 {},.within 1 {},
    .within 1 {},.within 1 { entropy := some (List.replicate 12 1) },.within 1 {},.within 1 {},.reply 1,
    .start (.list samplePlugin ⟨some "console"⟩ ⟨none,"1","org"⟩),.pool 2 {},
    .pool 2 { assertion := some ⟨"user","alice"⟩ },.pool 2 { membership := .ok ⟨true⟩ },
    .pool 2 { permission := .ok ⟨true⟩ },.pool 2 {},.reply 2,
    .start (.list samplePlugin ⟨some "console"⟩ ⟨some "sa_AAAAAAAAAAAAAAAAAAAAAAAAAAAAAAAA","5","org"⟩),.pool 3 {},
    .pool 3 { assertion := some ⟨"user","alice"⟩ },.pool 3 { membership := .ok ⟨true⟩ },
    .pool 3 { permission := .ok ⟨true⟩ },.pool 3 {},.reply 3]

set_option maxRecDepth 8000 in
noncomputable def sampleWalkRun : Run (Call .plain) Reply :=
  ((LockedConfig.init Database.empty).run (store .plain) Call.main sampleWalk).get (by decide +kernel)

/-- Two pages, the first with a cursor. -/
def twoPages (c : Run (Call E) Reply) (organizationId : String) : Bool :=
  c.trace.any fun e => (returned organizationId e).any fun p => p.1 == none &&
    c.trace.any fun e' => (returned organizationId e').any fun p' => p.2.response.nextCursor.isSome &&
      p'.1 == p.2.response.nextCursor && p'.2.response.nextCursor == none &&
      (c.trace.drop 14).all fun x => x.tid != e.tid && x.tid != e'.tid

set_option maxRecDepth 8000 in
/-- The walk begins when both accounts are there. -/
theorem walk_paginates_sample : ∃ later s early pages, sampleWalkRun.trace = later ++ s :: early ∧
    s.before.accountsOf "org" = 2 ∧ pages.length = 2 ∧ Walks sampleWalkRun "org" early none pages ∧
    Paginates sampleWalkRun "org" s.before pages := by
  have hrun : twoPages sampleWalkRun "org" = true ∧
      (sampleWalkRun.trace[13]?.any fun s => s.before.accountsOf "org" == 2) = true := by decide +kernel
  obtain ⟨hpages,hbegins⟩ := hrun
  obtain ⟨s,hs,hcount⟩ := (Option.any_eq_true _ _).mp hbegins
  simp only [twoPages,List.any_eq_true,Option.any_eq_true,Bool.and_eq_true,beq_iff_eq,List.all_eq_true,bne_iff_ne] at hpages
  obtain ⟨e,he,⟨after,page⟩,hpage,rfl,e',he',⟨after',page'⟩,hpage',⟨⟨hsome,rfl⟩,hnone⟩,hearly⟩ := hpages
  obtain ⟨cursor,hcursor⟩ := Option.isSome_iff_exists.mp hsome
  have htr : sampleWalkRun.trace = sampleWalkRun.trace.take 13 ++ s :: sampleWalkRun.trace.drop 14 := by
    obtain ⟨hlt,rfl⟩ := List.getElem?_eq_some_iff.mp hs
    rw [← List.drop_eq_getElem_cons hlt,List.take_append_drop]
  have hwalk : Walks sampleWalkRun "org" (sampleWalkRun.trace.drop 14) none [page,page'] := by
    refine .next (returns_of_returned he hpage) (fun x hx => (hearly x hx).1) hcursor ?_
    rw [hcursor] at hpage'
    exact .last (returns_of_returned he' hpage') fun x hx => (hearly x hx).2
  exact ⟨_,s,_,_,htr,eq_of_beq hcount,rfl,hwalk,
    walk_paginates (LockedConfig.leads_of_run (Option.some_get _).symm) "org" htr hwalk⟩

end LensoServiceAccount
