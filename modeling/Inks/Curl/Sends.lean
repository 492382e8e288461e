import Inks.Curl.Client
import Inks.Library.Run
import Mathlib.Algebra.Order.Ring.Nat
import Mathlib.Data.List.DropRight

/-
  A client can be reused. Whatever was sent before with it,
  and whichever allocations fail, each transfer runs with
  the options of its own request that libcurl takes and with
  no others, and none of them refers to memory that is gone.
  Header fields are lost when an allocation fails, and so is
  the list they were in.

  Key definitions include:
    * `CurlClient.sentHeaders`
    * `CurlClient.wanted`, `CurlClient.accepted`
    * `CurlClient.AsNew`
    * `CurlClient.dropped`

  Key theorems include:
    * `CurlClient.held_appendHeaders`
    * `CurlClient.seen_send`
    * `CurlClient.sends_as_new`
    * `CurlClient.lists_dropped`
-/

------------------------------------------------------------
-- Statements
------------------------------------------------------------

namespace Inks

def CurlChunk.headerField :
    CurlChunk → Option ByteString
| .header buff => some buff
| .body _ => none

def CurlChunk.bodyPiece :
    CurlChunk → Option ByteString
| .header _ => none
| .body buff => some buff

namespace CurlClient

/- Each header field, and whether it could be appended. -/
def fates :
    List ByteString → List Bool →
      List (ByteString × Bool)
| [], _ => []
| h :: headers, appends =>
    (h, appends.headD true) :: fates headers appends.tail

/- What comes after the last append that failed. -/
def sentHeaders
    (headers : List ByteString)
    (appends : List Bool) : List ByteString :=
  ((fates headers appends).rtakeWhile Prod.snd).map
    (fun fate => cStr fate.1)

/- The appends that failed right after a successful one. -/
def dropped
    (before : Bool) :
    List (ByteString × Bool) → Nat
| [] => 0
| (_, succeeds) :: later =>
    (if before && !succeeds then 1 else 0) +
      dropped succeeds later

/- The options of a transfer, from its request alone. -/
def wanted
    (req : CurlRequest)
    (appends : List Bool) : CurlOption → Option CurlSeen
| .httpGet =>
    if req.method = .get then some (.long 1) else none
| .post =>
    if req.method = .post then some (.long 1) else none
| .url => some (.string (cStr req.target))
| .connectTimeout => some (.long req.connectTimeout)
| .timeout => some (.long req.transferTimeout)
| .followLocation =>
    if req.followRedirects then some (.long 1) else none
| .sslVerifyPeer =>
    if req.verifySslPeer then some (.long 1) else none
| .sslVerifyHost =>
    if req.verifySslHost then some (.long 1) else none
| .userAgent =>
    if req.userAgent.isEmpty then
      none
    else
      some (.string (cStr req.userAgent))
| .headerFunction => some (.function .headerWriter)
| .headerData => some (.place .responseHeaders)
| .writeFunction => some (.function .bodyWriter)
| .writeData => some (.place .responseBody)
| .httpHeader =>
    some (.strings (sentHeaders req.headers appends))
| .postFields =>
    if req.method = .post then
      some (.place .requestBody)
    else
      none
| .postFieldSize =>
    if req.method = .post then
      some (.long req.body.length)
    else
      none
| .errorBuffer => some (.place .errorBuffer)

/-
  Those of them that libcurl takes. The others stay unset,
  and so have the values of a new handle.
-/
def accepted
    (req : CurlRequest)
    (transfer : CurlTransfer)
    (option : CurlOption) : Option CurlSeen :=
  if option.taken transfer.refused then
    wanted req transfer.appends option
  else
    none

/- The response that the pieces of a transfer make up. -/
def received
    (transfer : CurlTransfer) : CurlResponse where
  status :=
    if transfer.performed then
      transfer.responseCode.getD 0
    else
      0
  headers :=
    transfer.chunks.filterMap CurlChunk.headerField
  body :=
    (transfer.chunks.filterMap CurlChunk.bodyPiece).flatten

/-
  A call of `send` that only depends on its request. Nothing
  that libcurl finds is gone, and no request, not even one
  that asks for it, sets an option that stops libcurl from
  checking certificates and host names.
-/
structure AsNew
    (req : CurlRequest)
    (transfer : CurlTransfer)
    (sent : Sent) : Prop where
  options : sent.seen = some (accepted req transfer)
  intact :
    ∀ option, accepted req transfer option ≠ some .dangling
  verified :
    ∀ n,
      accepted req transfer .sslVerifyPeer =
          some (.long n) ∨
        accepted req transfer .sslVerifyHost =
          some (.long n) →
      n = 1
  result :
    sent.result =
      (transfer.performed && transfer.responseCode.isSome)
  resp : sent.resp = received transfer

end CurlClient

end Inks

------------------------------------------------------------
-- Lists of Header Fields
------------------------------------------------------------

namespace Inks

namespace CurlClient

/- What a pointer to a list of header fields refers to. -/
def Held
    (lists : List CurlSlist)
    (ptr : Option Nat)
    (strings : List ByteString) : Prop :=
  match ptr with
  | none => strings = []
  | some n =>
      lists[n]? = some { strings := strings, freed := false }

/- One round of the loop, on the strings alone. -/
def keep
    (strings : List ByteString)
    (fate : ByteString × Bool) : List ByteString :=
  if fate.2 then strings ++ [cStr fate.1] else []

theorem held_slistAppend
    {lists : List CurlSlist}
    {ptr : Option Nat}
    {strings : List ByteString}
    (hHeld : Held lists ptr strings)
    (h : ByteString)
    (succeeds : Bool) :
    Held
      (slistAppend lists ptr (cStr h) succeeds).2
      (slistAppend lists ptr (cStr h) succeeds).1
      (keep strings (h, succeeds)) := by
  cases succeeds with
  | false => simp [slistAppend, keep, Held]
  | true =>
      cases ptr with
      | none =>
          have hEmpty : strings = [] := hHeld
          simp [slistAppend, keep, Held, hEmpty]
      | some n =>
          have hList :
              lists[n]? =
                some { strings := strings, freed := false } :=
            hHeld
          simp [slistAppend, keep, Held,
            List.getElem?_modify_eq, hList]

/- The loop keeps a pointer to what is not lost. -/
theorem held_appendHeaders
    {lists : List CurlSlist}
    {ptr : Option Nat}
    {strings : List ByteString}
    (hHeld : Held lists ptr strings)
    (headers : List ByteString)
    (appends : List Bool) :
    Held
      (appendHeaders lists ptr headers appends).2
      (appendHeaders lists ptr headers appends).1
      ((fates headers appends).foldl keep strings) := by
  induction headers generalizing lists ptr strings appends
    with
  | nil => exact hHeld
  | cons h headers ih =>
      exact ih (held_slistAppend hHeld h _) appends.tail

/- What is not lost is what comes after the last failure. -/
theorem foldl_keep
    (strings : List (ByteString × Bool)) :
    strings.foldl keep [] =
      (strings.rtakeWhile Prod.snd).map
        (fun fate => cStr fate.1) := by
  induction strings using List.reverseRecOn with
  | nil => rfl
  | append_singleton strings fate ih =>
      rw [List.foldl_concat, keep]
      by_cases hSucceeds : fate.2 = true
      · rw [List.rtakeWhile_concat_pos _ _ _ hSucceeds]
        simp [hSucceeds, ih]
      · rw [List.rtakeWhile_concat_neg _ _ _ hSucceeds]
        simp [hSucceeds]

/- The lists that nobody has freed. -/
def unfreed
    (lists : List CurlSlist) : Nat :=
  lists.countP (fun l => !l.freed)

/- Those of them that no pointer refers to. -/
def Lost
    (lists : List CurlSlist)
    (ptr : Option Nat)
    (lost : Nat) : Prop :=
  unfreed lists = lost + if ptr.isSome then 1 else 0

theorem unfreed_modify
    {lists : List CurlSlist}
    {f : CurlSlist → CurlSlist}
    (hKept : ∀ l, (f l).freed = l.freed)
    (n : Nat) :
    unfreed (lists.modify n f) = unfreed lists := by
  unfold unfreed
  induction lists generalizing n with
  | nil => simp
  | cons l lists ih =>
      cases n with
      | zero => simp [List.countP_cons, hKept]
      | succ n => simp [List.countP_cons, ih]

theorem unfreed_free
    {lists : List CurlSlist}
    {n : Nat}
    {strings : List ByteString}
    (hList :
      lists[n]? =
        some { strings := strings, freed := false }) :
    unfreed
        (lists.modify n (fun l => { l with freed := true })) +
          1 =
      unfreed lists := by
  unfold unfreed
  induction lists generalizing n with
  | nil => simp at hList
  | cons l lists ih =>
      cases n with
      | zero =>
          simp only [List.getElem?_cons_zero,
            Option.some.injEq] at hList
          simp [hList]
      | succ n =>
          simp only [List.getElem?_cons_succ] at hList
          have hRest := ih hList
          simp only [List.modify_succ_cons, List.countP_cons]
          omega

/- One append loses the list it cannot extend. -/
theorem lost_slistAppend
    {lists : List CurlSlist}
    {ptr : Option Nat}
    {lost : Nat}
    (hLost : Lost lists ptr lost)
    (s : ByteString)
    (succeeds : Bool) :
    Lost
        (slistAppend lists ptr s succeeds).2
        (slistAppend lists ptr s succeeds).1
        (lost + if ptr.isSome && !succeeds then 1 else 0) ∧
      (slistAppend lists ptr s succeeds).1.isSome =
        succeeds := by
  unfold Lost at hLost ⊢
  cases succeeds with
  | false => simp [slistAppend, hLost]
  | true =>
      cases ptr with
      | none =>
          have hNone : unfreed lists = lost := by
            simpa using hLost
          simp [slistAppend, unfreed, ← hNone]
      | some n =>
          have hSame :
              unfreed
                  (lists.modify n (fun l =>
                    { l with strings := l.strings ++ [s] })) =
                unfreed lists :=
            unfreed_modify
              (f := fun l =>
                { l with strings := l.strings ++ [s] })
              (fun _ => rfl) n
          simp [slistAppend, hSame, hLost]

theorem lost_appendHeaders
    {lists : List CurlSlist}
    {ptr : Option Nat}
    {lost : Nat}
    (hLost : Lost lists ptr lost)
    (headers : List ByteString)
    (appends : List Bool) :
    Lost
      (appendHeaders lists ptr headers appends).2
      (appendHeaders lists ptr headers appends).1
      (lost +
        dropped ptr.isSome (fates headers appends)) := by
  induction headers generalizing lists ptr lost appends with
  | nil => exact hLost
  | cons h headers ih =>
      rcases lost_slistAppend hLost (cStr h)
          (appends.headD true) with
        ⟨hHere, hPtr⟩
      have hRest := ih hHere appends.tail
      rw [hPtr, Nat.add_assoc] at hRest
      exact hRest

end CurlClient

end Inks

------------------------------------------------------------
-- One Call
------------------------------------------------------------

namespace Inks

namespace CurlClient

variable {c : CurlClient}
variable {option other : CurlOption}
variable {value : CurlValue}

@[simp] theorem setopt_options :
    (c.setopt option value).options other =
      if option.taken c.refused = true ∧
          other = option then
        some value
      else
        c.options other := by
  cases hTaken : option.taken c.refused <;>
    simp [setopt, hTaken, Function.update_apply]

@[simp] theorem setopt_frame :
    (c.setopt option value).lists = c.lists ∧
      (c.setopt option value).calls = c.calls ∧
      (c.setopt option value).curl = c.curl ∧
      (c.setopt option value).refused = c.refused := by
  unfold setopt
  split <;> simp

@[simp] theorem setoptIf_options
    (condition : Bool) :
    (c.setoptIf condition option value).options other =
      if option.taken c.refused = true ∧
          condition = true ∧ other = option then
        some value
      else
        c.options other := by
  cases condition <;> simp [setoptIf]

@[simp] theorem setoptIf_frame
    (condition : Bool) :
    (c.setoptIf condition option value).lists = c.lists ∧
      (c.setoptIf condition option value).calls =
        c.calls ∧
      (c.setoptIf condition option value).curl =
        c.curl ∧
      (c.setoptIf condition option value).refused =
        c.refused := by
  cases condition <;> simp [setoptIf]

@[simp] theorem setupCommonOptions_frame
    (req : CurlRequest) :
    (c.setupCommonOptions req).lists = c.lists ∧
      (c.setupCommonOptions req).calls = c.calls ∧
      (c.setupCommonOptions req).curl = c.curl ∧
      (c.setupCommonOptions req).refused = c.refused := by
  simp [setupCommonOptions]

@[simp] theorem performRequest_client
    (resp : CurlResponse)
    (transfer : CurlTransfer) :
    (c.performRequest resp transfer).2.2 =
      c.setopt .errorBuffer
        (.place .errorBuffer c.calls) := by
  unfold performRequest
  split
  · rfl
  · split <;> rfl

theorem see_slist
    {ptr : Option Nat}
    {strings : List ByteString}
    (hHeld : Held c.lists ptr strings) :
    c.see (.slist ptr) = .strings strings := by
  cases ptr with
  | none =>
      have hEmpty : strings = [] := hHeld
      rw [hEmpty]
      rfl
  | some n =>
      have hList :
          c.lists[n]? =
            some { strings := strings, freed := false } :=
        hHeld
      simp [see, hList]

/- The list of header fields that a call builds. -/
def built
    (c : CurlClient)
    (req : CurlRequest)
    (transfer : CurlTransfer) :
    Option Nat × List CurlSlist :=
  appendHeaders c.lists none req.headers transfer.appends

/- The handle when the transfer of a call begins. -/
def prepared
    (c : CurlClient)
    (req : CurlRequest)
    (transfer : CurlTransfer) : CurlClient :=
  let c :=
    { c with
      calls := c.calls + 1
      refused := transfer.refused }.easyReset
  let c :=
    match req.method with
    | .get => c.setopt .httpGet (.long 1)
    | .post => c.setopt .post (.long 1)
  let c :=
    ((c.setupCommonOptions req).setupHeaders req
      transfer.appends).2
  match req.method with
  | .get => c
  | .post =>
      (c.setopt .postFields
        (.place .requestBody c.calls)).setopt
          .postFieldSize (.long req.body.length)

theorem prepared_frame
    (req : CurlRequest)
    (transfer : CurlTransfer) :
    (c.prepared req transfer).lists =
        (c.built req transfer).2 ∧
      (c.prepared req transfer).calls = c.calls + 1 ∧
      (c.prepared req transfer).curl = c.curl ∧
      (c.prepared req transfer).refused =
        transfer.refused := by
  cases hMethod : req.method <;>
    simp [prepared, hMethod, setupHeaders, built, easyReset]

theorem send_eq
    (hCurl : c.curl = true)
    (req : CurlRequest)
    (resp : CurlResponse)
    (transfer : CurlTransfer) :
    c.send req resp transfer =
      let performed :=
        (c.prepared req transfer).performRequest {} transfer
      { result := performed.1
        resp := performed.2.1
        seen := some performed.2.2.seen
        client :=
          performed.2.2.slistFreeAll
            (c.built req transfer).1 } := by
  cases hMethod : req.method <;>
    simp [send, hCurl, prepared, hMethod, setupHeaders,
      built, easyReset, CurlResponse.clear]

/- The list that a call builds is there in its transfer. -/
theorem held_built
    (req : CurlRequest)
    (transfer : CurlTransfer) :
    Held (c.prepared req transfer).lists
      (c.built req transfer).1
      (sentHeaders req.headers transfer.appends) := by
  have hHeld : Held c.lists none [] := rfl
  have hBuilt :=
    held_appendHeaders hHeld req.headers transfer.appends
  rw [foldl_keep] at hBuilt
  rw [(prepared_frame req transfer).1]
  exact hBuilt

theorem httpHeader_prepared
    (req : CurlRequest)
    (transfer : CurlTransfer) :
    (c.prepared req transfer).options .httpHeader =
      if CurlOption.taken transfer.refused .httpHeader then
        some (.slist (c.built req transfer).1)
      else
        none := by
  cases hMethod : req.method <;>
    simp [prepared, hMethod, setupHeaders, built, easyReset,
      setupCommonOptions]

/- The options that libcurl finds are those that it took. -/
theorem seen_send
    (hCurl : c.curl = true)
    (req : CurlRequest)
    (resp : CurlResponse)
    (transfer : CurlTransfer) :
    (c.send req resp transfer).seen =
      some (accepted req transfer) := by
  rw [send_eq hCurl]
  simp only [performRequest_client]
  congr 1
  funext option
  unfold accepted
  cases option with
  | httpHeader =>
      have hSlist :
          ((c.prepared req transfer).setopt .errorBuffer
              (.place .errorBuffer
                (c.prepared req transfer).calls)).see
            (.slist (c.built req transfer).1) =
          .strings
            (sentHeaders req.headers transfer.appends) :=
        see_slist (held_built req transfer)
      simp only [seen, setopt_options, reduceCtorEq,
        and_false, if_false, httpHeader_prepared, wanted]
      split
      · rw [Option.map_some, hSlist]
      · rfl
  | userAgent =>
      by_cases hAgent : req.userAgent = [] <;>
        cases hMethod : req.method <;>
        simp [seen, see, wanted, prepared, hMethod, hAgent,
          setupCommonOptions, setupHeaders, easyReset]
  | followLocation | sslVerifyPeer | sslVerifyHost =>
      cases hMethod : req.method <;>
        simp [seen, see, wanted, prepared, hMethod,
          setupCommonOptions, setupHeaders, easyReset] <;>
        exact ite_and _ _ _ _
  | _ =>
      cases hMethod : req.method <;>
        simp [seen, see, wanted, prepared, hMethod,
          setupCommonOptions, setupHeaders, easyReset]

end CurlClient

end Inks

------------------------------------------------------------
-- Responses
------------------------------------------------------------

namespace Inks

namespace CurlClient

variable {c : CurlClient}

theorem foldl_deliver
    (chunks : List CurlChunk)
    (resp : CurlResponse) :
    chunks.foldl deliver resp =
      { resp with
        headers :=
          resp.headers ++
            chunks.filterMap CurlChunk.headerField
        body :=
          resp.body ++
            (chunks.filterMap CurlChunk.bodyPiece).flatten } := by
  induction chunks generalizing resp with
  | nil => simp
  | cons chunk chunks ih =>
      rw [List.foldl_cons, ih]
      cases chunk <;>
        simp [deliver, headerWriter, bodyWriter,
          CurlChunk.headerField, CurlChunk.bodyPiece,
          List.filterMap_cons]

theorem performRequest_response
    (transfer : CurlTransfer) :
    (c.performRequest {} transfer).1 =
        (transfer.performed &&
          transfer.responseCode.isSome) ∧
      (c.performRequest {} transfer).2.1 =
        received transfer := by
  unfold performRequest received
  rw [foldl_deliver]
  cases hPerformed : transfer.performed <;>
    cases hCode : transfer.responseCode <;>
    simp

/- No request asks for memory that is gone. -/
theorem accepted_ne_dangling
    (req : CurlRequest)
    (transfer : CurlTransfer)
    (option : CurlOption) :
    accepted req transfer option ≠ some .dangling := by
  unfold accepted
  split
  · cases option <;> simp only [wanted] <;>
      (try split) <;> simp
  · simp

theorem asNew_send
    (hCurl : c.curl = true)
    (req : CurlRequest)
    (resp : CurlResponse)
    (transfer : CurlTransfer) :
    AsNew req transfer (c.send req resp transfer) := by
  have hResponse :=
    performRequest_response (c := c.prepared req transfer)
      transfer
  refine
    { options := seen_send hCurl req resp transfer
      intact := ?_
      verified := ?_
      result := ?_
      resp := ?_ }
  · exact accepted_ne_dangling req transfer
  · intro n hSet
    simp only [accepted, wanted, Option.ite_none_right_eq_some,
      Option.some.injEq, CurlSeen.long.injEq] at hSet
    rcases hSet with ⟨_, _, hPeer⟩ | ⟨_, _, hHost⟩
    · exact hPeer.symm
    · exact hHost.symm
  · rw [send_eq hCurl]
    exact hResponse.1
  · rw [send_eq hCurl]
    exact hResponse.2

end CurlClient

end Inks

------------------------------------------------------------
-- Runs
------------------------------------------------------------

namespace Inks

namespace CurlClient

/- A call of `send`, with what is up to libcurl in it. -/
structure SendCall where
  req : CurlRequest
  resp : CurlResponse := {}
  transfer : CurlTransfer := {}

def step
    (c : CurlClient)
    (call : SendCall) : CurlClient :=
  (c.send call.req call.resp call.transfer).client

@[simp] theorem slistFreeAll_curl
    (c : CurlClient)
    (list : Option Nat) :
    (c.slistFreeAll list).curl = c.curl := by
  cases list <;> rfl

theorem curl_step
    {c : CurlClient}
    (hCurl : c.curl = true)
    (call : SendCall) :
    (c.step call).curl = true := by
  rw [step, send_eq hCurl]
  simp only [performRequest_client, slistFreeAll_curl,
    setopt_frame]
  exact (prepared_frame _ _).2.2.1.trans hCurl

/- The lists that one call leaves without an owner. -/
def SendCall.dropped
    (call : SendCall) : Nat :=
  CurlClient.dropped false
    (fates call.req.headers call.transfer.appends)

theorem unfreed_step
    {c : CurlClient}
    (hCurl : c.curl = true)
    (call : SendCall) :
    unfreed (c.step call).lists =
      unfreed c.lists + call.dropped := by
  have hFirst : Lost c.lists none (unfreed c.lists) := rfl
  have hBuilt :=
    lost_appendHeaders hFirst call.req.headers
      call.transfer.appends
  have hHeld :=
    held_built (c := c) call.req call.transfer
  rw [(prepared_frame _ _).1] at hHeld
  rw [step, send_eq hCurl]
  simp only [performRequest_client]
  change Lost (c.built call.req call.transfer).2
    (c.built call.req call.transfer).1 _ at hBuilt
  cases hPtr : (c.built call.req call.transfer).1 with
  | none =>
      rw [hPtr] at hBuilt
      simp only [slistFreeAll, setopt_frame,
        (prepared_frame _ _).1]
      exact hBuilt
  | some n =>
      rw [hPtr] at hBuilt hHeld
      simp only [slistFreeAll, setopt_frame,
        (prepared_frame _ _).1]
      have hFree := unfreed_free hHeld
      unfold Lost at hBuilt
      simp only [Option.isSome_some, Option.isSome_none,
        if_true] at hBuilt
      exact Nat.add_right_cancel (hFree.trans hBuilt)

/-
  In every history of calls on one handle, each call sets
  the options, as far as libcurl takes them, and gives the
  response, that it would on a new handle: nothing of the
  requests before it is left, also under an option whose new
  value is refused, no pointer that libcurl finds is to
  memory that is gone, and the checks of certificates are
  never turned off.
-/
theorem sends_as_new
    (calls : List SendCall) :
    Transition.Along step
      (fun c call =>
        AsNew call.req call.transfer
          (c.send call.req call.resp call.transfer))
      (new true) calls := by
  intro past call _
  have hCurl :
      (Transition.run step (new true) past).curl = true := by
    have hAlways :
        Transition.Always step
          (fun c : CurlClient => c.curl = true) (new true)
          past := by
      refine Transition.always_of_step ?_ ?_ past
      · rfl
      · intro c call hCurl
        exact curl_step hCurl call
    exact hAlways.last
  exact asNew_send hCurl _ _ _

/-
  After every history of calls, the lists of header fields
  that were never freed are those that an append lost which
  failed right after a successful one, and no others.
-/
theorem lists_dropped
    (calls : List SendCall) :
    unfreed
        (Transition.run step (new true) calls).lists =
      (calls.map SendCall.dropped).sum := by
  have hAlways :
      (Transition.run step (new true) calls).curl = true ∧
        unfreed
            (Transition.run step (new true) calls).lists =
          (calls.map SendCall.dropped).sum := by
    induction calls using List.reverseRecOn with
    | nil => exact ⟨rfl, rfl⟩
    | append_singleton calls call ih =>
        rw [Transition.run_concat]
        refine ⟨curl_step ih.1 call, ?_⟩
        rw [unfreed_step ih.1, ih.2]
        simp
  exact hAlways.2

/- A list that is lost, and one that is sent. -/
example :
    sentHeaders [text "A: 1", text "B: 2", text "C: 3"]
        [true, false, true] = [text "C: 3"] ∧
      dropped false
        (fates [text "A: 1", text "B: 2", text "C: 3"]
          [true, false, true]) = 1 := by
  decide

end CurlClient

end Inks
