import Mathlib
import ReplicaCensus.Client.Basic
import ReplicaCensus.Proofs.Cluster.Fields
import ReplicaCensus.Proofs.FirstFault
import ReplicaCensus.Proofs.Stamp.Entries
import ReplicaCensus.Proofs.Text.Wide
/-!
# How reading the versions of a key ends

A client that asks a node for a key gets one stamp for each entry of the list in the answer, or a
fault of the exchange, or an answer that it refuses as such. Three errors pass by all three: an
infinite number where an entry needs an integer, if nothing before it is at fault; a body that is
nested too deep; and half a character in the name of the store.
-/

namespace ReplicaCensus

namespace Client

/-! ## 1. One entry -/

/-- What an entry has for the time; without it, the time is zero. -/
def timeOf (entry : Json) : Json := (entry.member? "ts").getD (.int 0)

/-- What an entry has for the clock; without it, the clock has no entries. -/
def clockOf (entry : Json) : Json := (entry.member? "vc").getD (.obj [])

/-- An entry stands for a stamp: it is an object, what it has for the time can be converted to it,
and the members of the object that it has for the clock stand for the counts of it. -/
structure StandsFor (entry : Json) (stamp : Stamp) : Prop where
  isObject : ∃ fields, entry = .obj fields
  time : (timeOf entry).toInteger = .ok stamp.time
  clock : ∃ members counts, clockOf entry = .obj members ∧
    List.Forall₂ Clock.StandsFor members counts ∧ stamp.clock = OrderedMap.ofList counts

/-- A member of a clock with a node for its name and an infinite count. -/
def CountIsInfinite (member : String × Json) : Prop :=
  (∃ node, (Json.str member.1).toInteger = .ok node) ∧ member.2.isInfinite = true

/-- An entry of the right shape in which an infinite number is what is read first and cannot be: the
time, or else the count of a member of the clock behind readable ones. -/
def HasInfinite (entry : Json) : Prop :=
  ∃ fields members, entry = .obj fields ∧ clockOf entry = .obj members ∧
    ((timeOf entry).isInfinite = true ∨
      (∃ time, (timeOf entry).toInteger = .ok time) ∧
        ComesFirst (fun member => ∃ count, Clock.StandsFor member count) CountIsInfinite members)

theorem isInfinite_iff {value : Json} :
    value.isInfinite = true ↔ value.toInteger = .error .fromInfinity := by
  rw [Json.toInteger_eq_fromInfinity]
  cases value with
  | double x => cases x <;> simp [Json.isInfinite]
  | _ => simp [Json.isInfinite]

theorem readEntry_eq_infinite {member : String × Json} :
    Clock.readEntry member.1 member.2 = .error (.conversion .fromInfinity) ↔
      CountIsInfinite member := by
  unfold CountIsInfinite Clock.readEntry
  rw [isInfinite_iff]
  cases hname : (Json.str member.1).toInteger with
  | error fault =>
    -- a name is a text, which is never an infinite number
    have hne : fault ≠ .fromInfinity := by
      rintro rfl
      obtain ⟨_, h⟩ := Json.toInteger_eq_fromInfinity.1 hname
      cases h
    simp [hne]
  | ok node =>
    cases member.2.toInteger with
    | error fault => simp
    | ok count =>
      dsimp only
      split <;> simp

/-- A clock that is read has no negative nodes and no counts below one. -/
theorem bounds_of_standsFor {entry : Json} {stamp : Stamp} (h : StandsFor entry stamp) :
    ∀ e ∈ stamp.clock.entries, 0 ≤ e.1 ∧ 1 ≤ e.2 := by
  obtain ⟨members, counts, -, hcounts, hclock⟩ := h.clock
  intro e he
  -- the entries of the clock are among the counts, each of which some member stands for
  rw [hclock] at he
  obtain ⟨i, hi, rfl⟩ := List.getElem_of_mem (OrderedMap.mem_of_mem_ofList he)
  have hmember := hcounts.get (hcounts.length_eq ▸ hi) hi
  exact ⟨hmember.node_nonneg, hmember.count_pos⟩

/-- The time of an entry is read first, then the members of the clock one by one. -/
theorem ofJson_shape {fields members : List (String × Json)}
    (hclock : clockOf (.obj fields) = .obj members) :
    Stamp.ofJson (.obj fields) =
      match (timeOf (.obj fields)).toInteger with
      | .error fault => .error (.conversion fault)
      | .ok time =>
        (members.mapM fun member => Clock.readEntry member.1 member.2).map fun counts =>
          ⟨OrderedMap.ofList counts, time⟩ := by
  unfold clockOf at hclock
  rw [Stamp.ofJson, hclock, Clock.ofJson_obj]
  unfold timeOf
  cases ((Json.obj fields).member? "ts").getD (.int 0) |>.toInteger with
  | error fault => rfl
  | ok time => cases members.mapM fun member => Clock.readEntry member.1 member.2 <;> rfl

theorem ofJson_eq_ok {fields members : List (String × Json)}
    (hclock : clockOf (.obj fields) = .obj members) {stamp : Stamp} :
    Stamp.ofJson (.obj fields) = .ok stamp ↔ StandsFor (.obj fields) stamp := by
  rw [ofJson_shape hclock]
  constructor
  · intro h
    cases htime : (timeOf (.obj fields)).toInteger with
    | error fault => rw [htime] at h; cases h
    | ok time =>
      rw [htime] at h
      cases hmembers : members.mapM fun member => Clock.readEntry member.1 member.2 with
      | error fault => rw [hmembers] at h; cases h
      | ok counts =>
        rw [hmembers] at h
        cases h
        exact ⟨⟨fields, rfl⟩, htime, members, counts, hclock,
          (mapM_eq_ok.1 hmembers).imp fun _ _ => Clock.readEntry_eq_ok.1, rfl⟩
  · rintro ⟨-, htime, members', counts, hclock', hcounts, hstamp⟩
    rw [hclock] at hclock'
    cases hclock'
    have hmembers := mapM_eq_ok.2 (hcounts.imp fun _ _ => Clock.readEntry_eq_ok.2)
    rw [htime]
    dsimp only
    rw [hmembers]
    show Except.ok (Stamp.mk (OrderedMap.ofList counts) stamp.time) = _
    rw [← hstamp]

theorem ofJson_eq_infinite {fields members : List (String × Json)}
    (hclock : clockOf (.obj fields) = .obj members) :
    Stamp.ofJson (.obj fields) = .error (.conversion .fromInfinity) ↔
      HasInfinite (.obj fields) := by
  have hmembers : (members.mapM fun member => Clock.readEntry member.1 member.2) =
      .error (.conversion .fromInfinity) ↔
      ComesFirst (fun member => ∃ count, Clock.StandsFor member count) CountIsInfinite members :=
    mapM_eq_error_iff_comesFirst (fun _ => by simp only [Clock.readEntry_eq_ok])
      fun _ _ => readEntry_eq_infinite
  have hshape : HasInfinite (.obj fields) ↔ ((timeOf (.obj fields)).isInfinite = true ∨
      (∃ time, (timeOf (.obj fields)).toInteger = .ok time) ∧
        ComesFirst (fun member => ∃ count, Clock.StandsFor member count) CountIsInfinite
          members) := by
    constructor
    · rintro ⟨fields', members', hfields, hclock', h⟩
      rw [hclock] at hclock'
      cases hclock'
      exact h
    · exact fun h => ⟨fields, members, rfl, hclock, h⟩
  rw [hshape, ofJson_shape hclock, isInfinite_iff, ← hmembers]
  cases (timeOf (.obj fields)).toInteger with
  | error fault => simp
  | ok time =>
    cases members.mapM fun member => Clock.readEntry member.1 member.2 <;> simp [Except.map]

/-- What becomes of a fault in an entry: an infinite number is a fault of its own. -/
def versionFault (url : String) (entry : Json) : StampFault → ClientError
  | .conversion .fromInfinity => .infiniteNumber
  | fault => .badVersion url entry (some fault)

theorem versionFault_eq_infinite {url : String} {entry : Json} {fault : StampFault} :
    versionFault url entry fault = .infiniteNumber ↔ fault = .conversion .fromInfinity := by
  constructor
  · intro h
    unfold versionFault at h
    split at h
    · rfl
    · cases h
  · rintro rfl
    rfl

theorem readVersion_obj (url : String) {fields members : List (String × Json)}
    (hclock : clockOf (.obj fields) = .obj members) :
    readVersion url (.obj fields) =
      (Stamp.ofJson (.obj fields)).mapError (versionFault url (.obj fields)) := by
  unfold clockOf at hclock
  unfold readVersion
  rw [hclock]
  dsimp only
  split
  · next stamp hstamp => rw [hstamp]; rfl
  · next hstamp => rw [hstamp]; rfl
  · next fault hne hstamp =>
    rw [hstamp]
    show _ = Except.error (versionFault url (.obj fields) fault)
    unfold versionFault
    split
    · exact absurd rfl hne
    · rfl

/-- An entry that is no object, or has something else than an object for the clock, is malformed. -/
theorem readVersion_shapeless (url : String) {entry : Json}
    (h : ∀ fields members, entry = .obj fields → clockOf entry ≠ .obj members) :
    readVersion url entry = .error (.badVersion url entry none) := by
  unfold readVersion
  split
  · next fields members hclock => exact absurd hclock (h fields members rfl)
  · rfl

theorem readVersion_eq_ok {url : String} {entry : Json} {stamp : Stamp} :
    readVersion url entry = .ok stamp ↔ StandsFor entry stamp := by
  by_cases hshape : ∃ fields members, entry = .obj fields ∧ clockOf entry = .obj members
  · obtain ⟨fields, members, rfl, hclock⟩ := hshape
    rw [readVersion_obj url hclock, ← ofJson_eq_ok hclock]
    cases Stamp.ofJson (.obj fields) <;> simp [Except.mapError]
  · simp only [not_exists, not_and] at hshape
    rw [readVersion_shapeless url hshape]
    constructor
    · intro h
      cases h
    · rintro ⟨⟨fields, hfields⟩, -, members, -, hclock, -⟩
      exact absurd hclock (hshape fields members hfields)

theorem readVersion_eq_infinite {url : String} {entry : Json} :
    readVersion url entry = .error .infiniteNumber ↔ HasInfinite entry := by
  by_cases hshape : ∃ fields members, entry = .obj fields ∧ clockOf entry = .obj members
  · obtain ⟨fields, members, rfl, hclock⟩ := hshape
    rw [readVersion_obj url hclock, ← ofJson_eq_infinite hclock]
    cases Stamp.ofJson (.obj fields) <;> simp [Except.mapError, versionFault_eq_infinite]
  · simp only [not_exists, not_and] at hshape
    rw [readVersion_shapeless url hshape]
    constructor
    · intro h
      cases h
    · rintro ⟨fields, members, hfields, hclock, -⟩
      exact absurd hclock (hshape fields members hfields)

theorem kind_of_readVersion {url : String} {entry : Json} {e : ClientError}
    (h : readVersion url entry = .error e) :
    e = .infiniteNumber ∨ e.kind = "AdminResponseError" := by
  unfold readVersion at h
  split at h
  · split at h
    · cases h
    · cases h
      exact .inl rfl
    · cases h
      exact .inr rfl
  · cases h
    exact .inr rfl

theorem readVersions_eq_mapM (url : String) (entries : List Json) :
    readVersions url entries = entries.mapM (readVersion url) := by
  induction entries with
  | nil => rfl
  | cons entry rest ih =>
    rw [readVersions, mapM_cons_eq, ih]
    cases readVersion url entry <;> rfl

/-! ## 2. The answer of the node -/

/-- The URL under which a client reads a key: the node is known, and the name of the store, being
made of characters, can be written into the URL. -/
def Asks (client : Client) (store : WideText) (node : Int) (key : Bytes) (url : String) : Prop :=
  ∃ name, store = .ofString name ∧ client.versionsUrl name node key = .ok url

section

variable (client : Client) (transport : Transport) (store : WideText) (node : Int) (key : Bytes)

/-- The node answers with success and with an object that has these entries for its versions. -/
def Brings (entries : List Json) : Prop :=
  ∃ url response body, Asks client store node key url ∧
    (transport url).result = .ok response ∧ (200 ≤ response.status ∧ response.status < 300) ∧
    Json.ofBytes response.body = .ok body ∧ body.member? "versions" = some (.arr entries)

/-- The node is asked, and no answer comes or one without success. -/
def Fails : Prop :=
  ∃ url, Asks client store node key url ∧
    ∀ response, (transport url).result = .ok response →
      response.status < 200 ∨ 300 ≤ response.status

/-- The node brings entries of which the first that stands for no stamp has an infinite number. -/
def BringsInfinite : Prop :=
  ∃ entries, Brings client transport store node key entries ∧
    ComesFirst (fun entry => ∃ stamp, StandsFor entry stamp) HasInfinite entries

/-- The node answers with success, and the body is nested too deep for the reader. -/
def BringsDeep : Prop :=
  ∃ url response container, Asks client store node key url ∧
    (transport url).result = .ok response ∧ (200 ≤ response.status ∧ response.status < 300) ∧
    Json.ofBytes response.body = .error (.notJson (.tooDeep container))

/-- The node is known, and there is a half of a character in the name of the store. -/
def NamesHalf : Prop := (∃ url, client.nodeUrl node = .ok url) ∧ store.HasHalf

end

variable {client : Client} {transport : Transport} {store : WideText} {node : Int} {key : Bytes}

theorem Asks.unique {url url' : String} (h : Asks client store node key url)
    (h' : Asks client store node key url') : url = url' := by
  obtain ⟨name, rfl, hurl⟩ := h
  obtain ⟨name', hstore, hurl'⟩ := h'
  cases (WideText.narrow_ofString name).symm.trans (WideText.narrow_eq_ok.2 hstore)
  exact Except.ok.inj (hurl.symm.trans hurl')

theorem Asks.nodeUrl {url : String} (h : Asks client store node key url) :
    ∃ address, client.nodeUrl node = .ok address := by
  obtain ⟨name, -, hurl⟩ := h
  rw [versionsUrl] at hurl
  cases hnode : client.nodeUrl node with
  | error e => rw [hnode] at hurl; cases hurl
  | ok address => exact ⟨address, rfl⟩

theorem Asks.not_namesHalf {url : String} (h : Asks client store node key url) :
    ¬NamesHalf client store node := by
  obtain ⟨name, rfl, -⟩ := h
  exact fun hhalf => WideText.not_hasHalf_ofString name hhalf.2

/-- A name of characters is read under its text. -/
theorem getStampsOf_ofString (client : Client) (transport : Transport) (name : String) (node : Int)
    (key : Bytes) :
    client.getStampsOf transport (.ofString name) node key =
      client.getStamps transport name node key := by
  rw [getStampsOf, WideText.narrow_ofString]
  cases hnode : client.nodeUrl node with
  | ok url => rfl
  | error e =>
    rw [getStamps, versionsUrl, hnode]
    rfl

section

variable {url : String} (hurl : Asks client store node key url) {response : Response}
  (hresult : (transport url).result = .ok response)

include hurl hresult

theorem fails_iff :
    Fails client transport store node key ↔
      response.status < 200 ∨ 300 ≤ response.status := by
  constructor
  · rintro ⟨url', hurl', hfails⟩
    cases hurl.unique hurl'
    exact hfails response hresult
  · intro hstatus
    refine ⟨url, hurl, fun response' hresult' => ?_⟩
    cases hresult.symm.trans hresult'
    exact hstatus

theorem brings_iff {entries : List Json} :
    Brings client transport store node key entries ↔
      (200 ≤ response.status ∧ response.status < 300) ∧ ∃ body,
        Json.ofBytes response.body = .ok body ∧ body.member? "versions" = some (.arr entries) := by
  constructor
  · rintro ⟨url', response', body, hurl', hresult', hstatus, hbody⟩
    cases hurl.unique hurl'
    cases hresult.symm.trans hresult'
    exact ⟨hstatus, body, hbody⟩
  · rintro ⟨hstatus, body, hbody⟩
    exact ⟨url, response, body, hurl, hresult, hstatus, hbody⟩

theorem bringsDeep_iff :
    BringsDeep client transport store node key ↔
      (200 ≤ response.status ∧ response.status < 300) ∧ ∃ container,
        Json.ofBytes response.body = .error (.notJson (.tooDeep container)) := by
  constructor
  · rintro ⟨url', response', container, hurl', hresult', hstatus, hbody⟩
    cases hurl.unique hurl'
    cases hresult.symm.trans hresult'
    exact ⟨hstatus, container, hbody⟩
  · rintro ⟨hstatus, container, hbody⟩
    exact ⟨url, response, container, hurl, hresult, hstatus, hbody⟩

end

theorem Brings.unique {entries entries' : List Json}
    (h : Brings client transport store node key entries)
    (h' : Brings client transport store node key entries') : entries = entries' := by
  obtain ⟨url, response, body, hurl, hresult, -, hbody, hentries⟩ := h
  obtain ⟨-, body', hbody', hentries'⟩ := (brings_iff hurl hresult).1 h'
  cases hbody.symm.trans hbody'
  cases hentries.symm.trans hentries'
  rfl

/-! ## 3. How a reading ends -/

/-- What a reading comes to: nothing is asked, the exchange fails, the answer is of another shape,
or the entries of it are read one by one. -/
inductive Reading (client : Client) (transport : Transport) (store : WideText) (node : Int)
    (key : Bytes) : Except ClientError (List Stamp) → Prop where
  | unknown {error} (hnode : client.nodeUrl node = .error (.unknownNode error)) :
      Reading client transport store node key (.error (.unknownNode error))
  | half {fault} (h : NamesHalf client store node) :
      Reading client transport store node key (.error (.notEncodable fault))
  | failed {url f} (hurl : Asks client store node key url)
      (hresult : (transport url).result = .error f) :
      Reading client transport store node key (.error (.transport f))
  | refused {url response} (hurl : Asks client store node key url)
      (hresult : (transport url).result = .ok response)
      (hstatus : response.status < 200 ∨ 300 ≤ response.status) :
      Reading client transport store node key (.error (.status response.status))
  | deep {container} (h : BringsDeep client transport store node key) :
      Reading client transport store node key (.error (.tooDeep container))
  | shapeless {url e} (hurl : Asks client store node key url)
      (hfails : ¬Fails client transport store node key)
      (hdeep : ¬BringsDeep client transport store node key)
      (hbrings : ∀ entries, ¬Brings client transport store node key entries)
      (hkind : e.kind = "AdminResponseError") : Reading client transport store node key (.error e)
  | entries {url entries} (hurl : Asks client store node key url)
      (hbrings : Brings client transport store node key entries) :
      Reading client transport store node key (entries.mapM (readVersion url))

theorem unknown_of_nodeUrl {t : Topology} (ht : client.topology = some t) {e : ClientError}
    (hnode : client.nodeUrl node = .error e) : ∃ error, e = .unknownNode error := by
  rw [nodeUrl, knownTopology, ht] at hnode
  dsimp only at hnode
  cases hget : t.get node with
  | ok m => rw [hget] at hnode; cases hnode
  | error error => rw [hget] at hnode; cases hnode; exact ⟨error, rfl⟩

/-- What is made of a response with success. -/
theorem reading_of_success {url : String} (hurl : Asks client store node key url)
    {response : Response} (hresult : (transport url).result = .ok response)
    (hstatus : 200 ≤ response.status ∧ response.status < 300) :
    Reading client transport store node key
      (match getJson transport url with
        | .error e => .error e
        | .ok body => stampsOf url body) := by
  have hfails : ¬Fails client transport store node key := by
    rw [fails_iff hurl hresult]
    omega
  rw [getJson, hresult]
  dsimp only
  rw [if_neg (show ¬(response.status < 200 ∨ 300 ≤ response.status) by omega)]
  split
  · next e he =>
    split at he
    · next container hbody =>
      cases he
      exact .deep ((bringsDeep_iff hurl hresult).2 ⟨hstatus, container, hbody⟩)
    · next fault hdeep hbody =>
      cases he
      refine .shapeless hurl hfails (fun h => ?_) (fun entries h => ?_) rfl
      · obtain ⟨-, container, hbody'⟩ := (bringsDeep_iff hurl hresult).1 h
        cases hbody.symm.trans hbody'
        exact hdeep container rfl
      · obtain ⟨-, body, hbody', -⟩ := (brings_iff hurl hresult).1 h
        cases hbody.symm.trans hbody'
    · cases he
  · next body he =>
    split at he
    · cases he
    · cases he
    · next body' hbody =>
      cases he
      unfold stampsOf
      split
      · next entries hentries =>
        rw [readVersions_eq_mapM]
        exact .entries hurl ((brings_iff hurl hresult).2 ⟨hstatus, body, hbody, hentries⟩)
      · next hnone =>
        refine .shapeless hurl hfails (fun h => ?_) (fun entries h => ?_) rfl
        · obtain ⟨-, container, hbody'⟩ := (bringsDeep_iff hurl hresult).1 h
          cases hbody.symm.trans hbody'
        · obtain ⟨-, body', hbody', hentries⟩ := (brings_iff hurl hresult).1 h
          cases hbody.symm.trans hbody'
          exact hnone entries hentries

theorem reading_getStampsOf {t : Topology} (ht : client.topology = some t) :
    Reading client transport store node key
      (client.getStampsOf transport store node key).result := by
  cases hnode : client.nodeUrl node with
  | error e =>
    obtain ⟨error, rfl⟩ := unknown_of_nodeUrl ht hnode
    rw [getStampsOf, hnode]
    exact .unknown hnode
  | ok address =>
    cases hstore : store.narrow with
    | error fault =>
      rw [getStampsOf, hnode]
      dsimp only
      rw [hstore]
      exact .half ⟨⟨address, hnode⟩, WideText.hasHalf_of_narrow hstore⟩
    | ok name =>
      have hname := WideText.narrow_eq_ok.1 hstore
      have hversions : client.versionsUrl name node key =
          .ok (address ++ versionsPath name key) := by
        rw [versionsUrl, hnode]
        rfl
      have hurl : Asks client store node key (address ++ versionsPath name key) :=
        ⟨name, hname, hversions⟩
      rw [hname, getStampsOf_ofString, getStamps, hversions, ← hname]
      dsimp only
      cases hresult : (transport (address ++ versionsPath name key)).result with
      | error f =>
        rw [getJson, hresult]
        exact .failed hurl hresult
      | ok response =>
        by_cases hstatus : response.status < 200 ∨ 300 ≤ response.status
        · rw [getJson, hresult]
          dsimp only
          rw [if_pos hstatus]
          exact .refused hurl hresult hstatus
        · have hread := reading_of_success hurl hresult (by omega)
          cases hjson : getJson transport (address ++ versionsPath name key) with
          | error e => rw [hjson] at hread; exact hread
          | ok body => rw [hjson] at hread; exact hread

theorem mapM_readVersion_eq_infinite {url : String} {entries : List Json} :
    entries.mapM (readVersion url) = .error .infiniteNumber ↔
      ComesFirst (fun entry => ∃ stamp, StandsFor entry stamp) HasInfinite entries :=
  mapM_eq_error_iff_comesFirst (fun _ => by simp only [readVersion_eq_ok])
    fun _ _ => readVersion_eq_infinite

/-- The entry at which reading the list stops. -/
theorem exists_unread {url : String} {entries : List Json} {e : ClientError}
    (h : entries.mapM (readVersion url) = .error e) :
    ∃ entry ∈ entries, readVersion url entry = .error e ∧ ¬∃ stamp, StandsFor entry stamp := by
  obtain ⟨front, entry, behind, rfl, -, hentry⟩ := mapM_eq_error.1 h
  refine ⟨entry, by simp, hentry, ?_⟩
  rintro ⟨stamp, hstamp⟩
  rw [readVersion_eq_ok.2 hstamp] at hentry
  cases hentry

/-- Why a reading ends with an error of a kind. -/
inductive Cause (client : Client) (transport : Transport) (store : WideText) (node : Int)
    (key : Bytes) : String → Prop where
  | exchange {kind} (h : Fails client transport store node key)
      (hkind : kind ∈ Transport.failureKinds) : Cause client transport store node key kind
  | infinite (h : BringsInfinite client transport store node key) :
      Cause client transport store node key "OverflowError"
  | deep (h : BringsDeep client transport store node key) :
      Cause client transport store node key "RecursionError"
  | half (h : NamesHalf client store node) :
      Cause client transport store node key "UnicodeEncodeError"
  | response (hfails : ¬Fails client transport store node key)
      (hinfinite : ¬BringsInfinite client transport store node key)
      (hdeep : ¬BringsDeep client transport store node key)
      (hhalf : ¬NamesHalf client store node) :
      Cause client transport store node key "AdminResponseError"

/-- What the kind of an error tells of the question and the answer. -/
structure Tells (client : Client) (transport : Transport) (store : WideText) (node : Int)
    (key : Bytes) (kind : String) : Prop where
  unread : ∀ entries, Brings client transport store node key entries →
    ∃ entry ∈ entries, ¬∃ stamp, StandsFor entry stamp
  exchange : kind ∈ Transport.failureKinds ↔ Fails client transport store node key
  infinite : kind = "OverflowError" ↔ BringsInfinite client transport store node key
  deep : kind = "RecursionError" ↔ BringsDeep client transport store node key
  half : kind = "UnicodeEncodeError" ↔ NamesHalf client store node
  response : kind = "AdminResponseError" ↔
    ¬Fails client transport store node key ∧ ¬BringsInfinite client transport store node key ∧
      ¬BringsDeep client transport store node key ∧ ¬NamesHalf client store node

theorem Brings.not_fails {entries : List Json}
    (h : Brings client transport store node key entries) :
    ¬Fails client transport store node key := by
  obtain ⟨url, response, -, hurl, hresult, hstatus, -⟩ := h
  rw [fails_iff hurl hresult]
  omega

theorem BringsDeep.not_fails (h : BringsDeep client transport store node key) :
    ¬Fails client transport store node key := by
  obtain ⟨url, response, -, hurl, hresult, hstatus, -⟩ := h
  rw [fails_iff hurl hresult]
  omega

theorem Brings.not_deep {entries : List Json}
    (h : Brings client transport store node key entries) :
    ¬BringsDeep client transport store node key := by
  obtain ⟨url, response, body, hurl, hresult, -, hbody, -⟩ := h
  intro hdeep
  obtain ⟨-, container, hbody'⟩ := (bringsDeep_iff hurl hresult).1 hdeep
  cases hbody.symm.trans hbody'

/-- With half a character in the name nothing is asked, so that nothing else can be the matter. -/
theorem NamesHalf.not_asks (h : NamesHalf client store node) {url : String} :
    ¬Asks client store node key url := fun hurl => hurl.not_namesHalf h

theorem ne_of_mem_failureKinds {kind : String} (h : kind ∈ Transport.failureKinds) :
    kind ≠ "OverflowError" ∧ kind ≠ "RecursionError" ∧ kind ≠ "UnicodeEncodeError" ∧
      kind ≠ "AdminResponseError" := by
  have hall : ∀ kind ∈ Transport.failureKinds, kind ≠ "OverflowError" ∧
      kind ≠ "RecursionError" ∧ kind ≠ "UnicodeEncodeError" ∧ kind ≠ "AdminResponseError" := by
    decide
  exact hall kind h

/-- The causes exclude each other, and so do their kinds. -/
theorem Cause.tells {kind : String} (h : Cause client transport store node key kind)
    (hunread : ∀ entries, Brings client transport store node key entries →
      ∃ entry ∈ entries, ¬∃ stamp, StandsFor entry stamp) :
    Tells client transport store node key kind := by
  cases h with
  | exchange hfails hkind =>
    obtain ⟨hoverflow, hrecursion, hencode, hresponse⟩ := ne_of_mem_failureKinds hkind
    obtain ⟨url, hurl, -⟩ := id hfails
    exact ⟨hunread, iff_of_true hkind hfails,
      iff_of_false hoverflow fun ⟨_, hbrings, _⟩ => hbrings.not_fails hfails,
      iff_of_false hrecursion fun hdeep => hdeep.not_fails hfails,
      iff_of_false hencode fun hhalf => hhalf.not_asks hurl,
      iff_of_false hresponse fun h => h.1 hfails⟩
  | infinite hinfinite =>
    obtain ⟨entries, hbrings, -⟩ := id hinfinite
    obtain ⟨url, -, -, hurl, -⟩ := id hbrings
    exact ⟨hunread, iff_of_false (by decide) hbrings.not_fails, iff_of_true rfl hinfinite,
      iff_of_false (by decide) hbrings.not_deep,
      iff_of_false (by decide) fun hhalf => hhalf.not_asks hurl,
      iff_of_false (by decide) fun h => h.2.1 hinfinite⟩
  | deep hdeep =>
    obtain ⟨url, -, -, hurl, -⟩ := id hdeep
    exact ⟨hunread, iff_of_false (by decide) hdeep.not_fails,
      iff_of_false (by decide) fun ⟨_, hbrings, _⟩ => hbrings.not_deep hdeep,
      iff_of_true rfl hdeep, iff_of_false (by decide) fun hhalf => hhalf.not_asks hurl,
      iff_of_false (by decide) fun h => h.2.2.1 hdeep⟩
  | half hhalf =>
    exact ⟨hunread, iff_of_false (by decide) fun ⟨_, hurl, _⟩ => hhalf.not_asks hurl,
      iff_of_false (by decide) fun ⟨_, ⟨_, _, _, hurl, _⟩, _⟩ => hhalf.not_asks hurl,
      iff_of_false (by decide) fun ⟨_, _, _, hurl, _⟩ => hhalf.not_asks hurl,
      iff_of_true rfl hhalf, iff_of_false (by decide) fun h => h.2.2.2 hhalf⟩
  | response hfails hinfinite hdeep hhalf =>
    exact ⟨hunread, iff_of_false (by decide) hfails, iff_of_false (by decide) hinfinite,
      iff_of_false (by decide) hdeep, iff_of_false (by decide) hhalf,
      iff_of_true rfl ⟨hfails, hinfinite, hdeep, hhalf⟩⟩

theorem Cause.of_entries {url : String} {entries : List Json} {e : ClientError}
    (hurl : Asks client store node key url)
    (hbrings : Brings client transport store node key entries)
    (h : entries.mapM (readVersion url) = .error e) :
    Cause client transport store node key e.kind := by
  obtain ⟨entry, hmem, hentry, hnone⟩ := exists_unread h
  obtain rfl | hkind := kind_of_readVersion hentry
  · exact .infinite ⟨entries, hbrings, mapM_readVersion_eq_infinite.1 h⟩
  · rw [hkind]
    refine .response hbrings.not_fails ?_ hbrings.not_deep hurl.not_namesHalf
    rintro ⟨entries', hbrings', hfirst⟩
    -- an infinite number that comes first would be the error
    cases hbrings.unique hbrings'
    cases h.symm.trans (mapM_readVersion_eq_infinite.2 hfirst)
    exact absurd hkind (by decide)

/-- A node that is not known is not asked for anything. -/
theorem not_asks_of_nodeUrl {e : ClientError} (hnode : client.nodeUrl node = .error e)
    {url : String} : ¬Asks client store node key url := by
  intro hurl
  obtain ⟨address, haddress⟩ := hurl.nodeUrl
  cases hnode.symm.trans haddress

theorem Cause.of_unknown {e : ClientError} (hnode : client.nodeUrl node = .error e) :
    Cause client transport store node key "AdminResponseError" := by
  refine .response ?_ ?_ ?_ ?_
  · exact fun ⟨_, hurl, _⟩ => not_asks_of_nodeUrl hnode hurl
  · exact fun ⟨_, ⟨_, _, _, hurl, _⟩, _⟩ => not_asks_of_nodeUrl hnode hurl
  · exact fun ⟨_, _, _, hurl, _⟩ => not_asks_of_nodeUrl hnode hurl
  · rintro ⟨⟨address, haddress⟩, -⟩
    cases hnode.symm.trans haddress

theorem kind_mem_failureKinds {f : Failure} (h : Transport.isExchangeFailure f = true) :
    f.kind ∈ Transport.failureKinds := by
  cases f with
  | raised kind text => exact List.contains_iff_mem.1 h
  | _ => cases h

/-- A client that knows the topology gets one stamp for each entry that the node brings, in their
order and with sound clocks, or an error that tells what the matter is: a fault of the exchange, an
infinite number, a body that is nested too deep, half a character in the name of the store, or
anything else about the node and its answer. -/
theorem getStamps_tells {t : Topology} (ht : client.topology = some t)
    (hfailures : ∀ url f, (transport url).result = .error f →
      Transport.isExchangeFailure f = true) (store : WideText) (node : Int) (key : Bytes) :
    match (client.getStampsOf transport store node key).result with
    | .ok stamps => ∃ entries, Brings client transport store node key entries ∧
        List.Forall₂ StandsFor entries stamps ∧
        ∀ stamp ∈ stamps, ∀ e ∈ stamp.clock.entries, 0 ≤ e.1 ∧ 1 ≤ e.2
    | .error e => Tells client transport store node key e.kind := by
  have hreading : Reading client transport store node key _ := reading_getStampsOf ht
  generalize (client.getStampsOf transport store node key).result = result at hreading ⊢
  cases hreading with
  | unknown hnode =>
    refine (Cause.of_unknown hnode).tells ?_
    exact fun _ ⟨_, _, _, hurl, _⟩ => absurd hurl (not_asks_of_nodeUrl hnode)
  | half h => exact (Cause.half h).tells fun _ ⟨_, _, _, hurl, _⟩ => absurd hurl h.not_asks
  | failed hurl hresult =>
    have hfails : Fails client transport store node key := by
      refine ⟨_, hurl, fun response hresponse => ?_⟩
      cases hresult.symm.trans hresponse
    exact (Cause.exchange hfails (kind_mem_failureKinds (hfailures _ _ hresult))).tells
      fun _ hbrings => absurd hfails hbrings.not_fails
  | refused hurl hresult hstatus =>
    have hfails := (fails_iff hurl hresult).2 hstatus
    have hkind : "HTTPStatusError" ∈ Transport.failureKinds := by decide
    exact (Cause.exchange hfails hkind).tells fun _ hbrings => absurd hfails hbrings.not_fails
  | deep h => exact (Cause.deep h).tells fun _ hbrings => absurd h hbrings.not_deep
  | shapeless hurl hfails hdeep hbrings hkind =>
    dsimp only
    rw [hkind]
    have hinfinite : ¬BringsInfinite client transport store node key :=
      fun ⟨entries, h, _⟩ => hbrings entries h
    exact (Cause.response hfails hinfinite hdeep hurl.not_namesHalf).tells
      fun entries h => absurd h (hbrings entries)
  | @entries url entries hurl hbrings =>
    cases hread : entries.mapM (readVersion url) with
    | ok stamps =>
      have hstands := (mapM_eq_ok.1 hread).imp fun _ _ => readVersion_eq_ok.1
      exact ⟨entries, hbrings, hstands, forall_of_mapM_eq_ok hread fun entry _ stamp hstamp =>
        bounds_of_standsFor (readVersion_eq_ok.1 hstamp)⟩
    | error e =>
      refine (Cause.of_entries hurl hbrings hread).tells fun _ hbrings' => ?_
      obtain ⟨entry, hmem, -, hnone⟩ := exists_unread hread
      exact hbrings.unique hbrings' ▸ ⟨entry, hmem, hnone⟩

/-- A transport that brings one body with success, and is refused everywhere else. -/
def answering (url : String) (body : List Char) : Transport := fun asked =>
  if asked = url then ⟨0, .ok ⟨200, Utf8.encode body⟩⟩ else Transport.refused

theorem isExchangeFailure_answering (url : String) (body : List Char) (asked : String)
    (f : Failure) (h : (answering url body asked).result = .error f) :
    Transport.isExchangeFailure f = true := by
  unfold answering at h
  split at h
  · cases h
  · cases h
    decide

/-- A client that knows of one node. -/
def oneNode : Client := ⟨"http://h:1", some ⟨[⟨0, "h", 1⟩], 20, by decide, by decide⟩⟩

/-- The name of a store. -/
def sName : WideText := .ofString "s"

/-- Where it asks that node for a key. -/
def oneUrl : String := "http://h:1/admin/stores/s/keys/61/versions"

/-- Numbers as a text with blanks and an underscore, as a truth value and as a fraction, and then an
entry in which everything is missing. -/
def lenientBody : List Char :=
  "\x7b\"versions\": [\x7b\"vc\": \x7b\" 1_0 \": true\x7d, \"ts\": 1.5\x7d, \x7b\x7d]\x7d".toList

theorem getStamps_tells_lenient :
    (∀ url f, (answering oneUrl lenientBody url).result = .error f →
        Transport.isExchangeFailure f = true) ∧
      ∃ entries, Brings oneNode (answering oneUrl lenientBody) sName 0 [0x61] entries ∧
        List.Forall₂ StandsFor entries [⟨OrderedMap.empty.insert 10 1, 1⟩, ⟨OrderedMap.empty, 0⟩] ∧
        ∀ stamp ∈ [(⟨OrderedMap.empty.insert 10 1, 1⟩ : Stamp), ⟨OrderedMap.empty, 0⟩],
          ∀ e ∈ stamp.clock.entries, 0 ≤ e.1 ∧ 1 ≤ e.2 := by
  have hfailures := isExchangeFailure_answering oneUrl lenientBody
  have htopology : oneNode.topology = some ⟨[⟨0, "h", 1⟩], 20, by decide, by decide⟩ := rfl
  have htells := getStamps_tells htopology hfailures sName 0 [0x61]
  have hresult : (oneNode.getStampsOf (answering oneUrl lenientBody) sName 0 [0x61]).result.mapError
      ClientError.kind = .ok [⟨OrderedMap.empty.insert 10 1, 1⟩, ⟨OrderedMap.empty, 0⟩] := by
    decide +kernel
  refine ⟨hfailures, ?_⟩
  cases h : (oneNode.getStampsOf (answering oneUrl lenientBody) sName 0 [0x61]).result with
  | error e => rw [h] at hresult; cases hresult
  | ok stamps =>
    rw [h] at hresult htells
    cases hresult
    exact htells

/-- A clock with an infinite count. -/
def infiniteBody : List Char :=
  "\x7b\"versions\": [\x7b\"vc\": \x7b\"0\": Infinity\x7d, \"ts\": 1\x7d]\x7d".toList

/-- An infinite count is an overflow, and no answer that is refused as such; half a character in
the name of a store cannot be encoded, and nothing is asked. -/
theorem getStamps_overflows :
    (∀ url f, (answering oneUrl infiniteBody url).result = .error f →
        Transport.isExchangeFailure f = true) ∧
      (∃ e, (oneNode.getStampsOf (answering oneUrl infiniteBody) sName 0 [0x61]).result = .error e ∧
        e.kind = "OverflowError") ∧
      ∃ e, (oneNode.getStampsOf (answering oneUrl infiniteBody) [.half 0] 0 [0x61]).result =
        .error e ∧ e.kind = "UnicodeEncodeError" := by
  have hresult : (oneNode.getStampsOf (answering oneUrl infiniteBody) sName 0 [0x61]).result.mapError
      ClientError.kind = .error "OverflowError" := by decide +kernel
  refine ⟨isExchangeFailure_answering _ _, ?_, _, rfl, rfl⟩
  cases h : (oneNode.getStampsOf (answering oneUrl infiniteBody) sName 0 [0x61]).result with
  | ok stamps => rw [h] at hresult; cases hresult
  | error e =>
    rw [h] at hresult
    exact ⟨e, rfl, Except.error.inj hresult⟩

end Client

end ReplicaCensus
