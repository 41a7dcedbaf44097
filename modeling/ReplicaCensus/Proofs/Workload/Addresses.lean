import Mathlib
import ReplicaCensus.Proofs.Client.Urls
import ReplicaCensus.Proofs.Workload.Sending
/-!
# Where the workload writes, and where the client reads

The workload puts the name of a store into its URLs as it is, the client escapes it. So their URLs
go together for names of unreserved characters and for no others. The cells that they stand for are
the same as long as a name has none of the three characters that mean something in the URL itself.
-/

namespace ReplicaCensus

namespace Workload

/-! ## 1. The URLs -/

theorem cellUrl_versions (m : Member) (store : String) (key : Bytes) :
    cellUrl m store key ++ "/versions" =
      "http://" ++ m.address ++ String.ofList (versionsChars store (Hex.encodeChars key)) := by
  apply String.toList_inj.1
  rw [cellUrl_eq]
  simp only [cellChars, versionsChars, String.toList_append, String.toList_ofList,
    List.append_assoc, List.cons_append]
  rfl

theorem versionsChars_injective {store store' : String} {hex : List Char}
    (h : versionsChars store hex = versionsChars store' hex) : store = store' := by
  unfold versionsChars at h
  have hstores := List.append_cancel_left (List.cons.inj h).2
  have hnames := List.append_cancel_left (List.cons.inj hstores).2
  exact String.toList_inj.1 (List.append_cancel_right (List.cons.inj hnames).2)

theorem quote_eq_self_iff {name : String} : Percent.quote name = name ↔ IsUnreserved name := by
  rw [IsUnreserved, ← Percent.quoteChars_eq_self_iff, ← String.toList_inj, Percent.quote,
    String.toList_ofList]

/-- The URL of a write goes on to that of the client if the name needs no escapes. -/
theorem versionsUrl_eq_iff (m : Member) (store : String) (key : Bytes) :
    "http://" ++ m.address ++ Client.versionsPath store key = cellUrl m store key ++ "/versions" ↔
      IsUnreserved store := by
  have hpath : Client.versionsPath store key =
      String.ofList (versionsChars (Percent.quote store) (Hex.encodeChars key)) := by
    rw [← Client.toList_versionsPath_eq, String.ofList_toList]
  rw [cellUrl_versions, hpath, ← quote_eq_self_iff]
  constructor
  · intro h
    have hchars := congrArg String.toList h
    simp only [String.toList_append, String.toList_ofList, List.append_assoc] at hchars
    exact versionsChars_injective (List.append_cancel_left (List.append_cancel_left hchars))
  · intro h
    rw [h]

/-! ## 2. The cells -/

/-- A path leads to one cell: with its percent signs resolved it is routed there, and all that is
ever written under it is a version of this key in this store. -/
def WritesTo (path store : String) (key : Bytes) : Prop :=
  ∃ request, Percent.unquote? path = some request ∧
    Route.ofPath? request = some (.cell store (Hex.encode key)) ∧
    ∀ node body now w, Request.write? node ⟨"PUT", request, body, now⟩ = some w →
      w.store = store ∧ w.key = key

theorem writesTo_of_route {path request store : String} {key : Bytes}
    (hresolved : Percent.unquote? path = some request)
    (hroute : Route.ofPath? request = some (.cell store (Hex.encode key))) :
    WritesTo path store key := by
  refine ⟨request, hresolved, hroute, fun node body now w hw => ?_⟩
  unfold Request.write? at hw
  rw [if_pos rfl, hroute] at hw
  dsimp only at hw
  split at hw
  · next found _ hkey =>
    -- the key is read back from its hexadecimal text
    rw [Hex.encode, String.toList_ofList, Hex.decodeSpaced?_encodeChars] at hkey
    cases hkey
    obtain ⟨clock, -, rfl⟩ := Option.map_eq_some_iff.1 hw
    exact ⟨rfl, rfl⟩
  · cases hw

theorem writesTo_cellChars {store : String} (hname : Schema.IsName store) (hwhole : IsWhole store)
    {key : Bytes} (hkey : key ≠ []) :
    WritesTo (String.ofList (cellChars store (Hex.encodeChars key))) store key :=
  writesTo_of_route (unquote?_cellChars hwhole key)
    (ofPath?_cellChars hname.noSlash hname.ne hkey)

/-! ## 3. Writer and reader -/

/-- The client reads at the URL of the write, gone on, if and only if the name of the store has
unreserved characters alone. Even with others it reads the cell that was written, unless the name
has a percent sign, a question mark or a hash sign. -/
theorem getStamps_asks_iff {client : Client} {t : Topology} (ht : client.topology = some t)
    {m : Member} (hm : m ∈ t.members) {entry : Json} {schema : Schema}
    (hschema : Schema.ofJson entry = .ok schema) (key : Bytes) :
    ((∀ transport, (client.getStamps transport schema.name m.id key).urls =
        [cellUrl m schema.name key ++ "/versions"]) ↔ IsUnreserved schema.name) ∧
      (IsWhole schema.name → key ≠ [] → ∃ written read,
        cellUrl m schema.name key = "http://" ++ m.address ++ written ∧
        (∀ transport, (client.getStamps transport schema.name m.id key).urls =
          ["http://" ++ m.address ++ read]) ∧
        IsPath written ∧ WritesTo written schema.name key ∧
        IsPath read ∧ Client.LeadsTo read schema.name key) := by
  have hname := Schema.isValidName_iff.1 (Schema.isSound_of_ofJson hschema).name
  have hurls := fun transport => Client.urls_getStamps ht hm transport schema.name key
  refine ⟨?_, fun hwhole hkey => ⟨_, _, cellUrl_eq m schema.name key, hurls,
    isPath_cellChars hwhole key, writesTo_cellChars hname hwhole hkey,
    Client.isPath_versionsPath schema.name key, Client.leadsTo_versionsPath hname hkey⟩⟩
  rw [← versionsUrl_eq_iff m schema.name key]
  constructor
  · intro h
    have hone := (hurls fun _ => Transport.notFound).symm.trans (h _)
    exact (List.cons.inj hone).1
  · intro h transport
    rw [hurls, h]

/-- A store whose name needs escapes, but is one segment of a URL without them. -/
def accented : Schema := ⟨"é b", 1, Schema.consistentRouting⟩

theorem getStamps_asks_iff_accented :
    Schema.ofJson accented.toJson = .ok accented ∧
      (¬∀ transport, (Client.lone.getStamps transport accented.name 7 [0x6B]).urls =
        [cellUrl ⟨7, "h", 80⟩ accented.name [0x6B] ++ "/versions"]) ∧
      ∃ written read, cellUrl ⟨7, "h", 80⟩ accented.name [0x6B] = "http://" ++ "h:80" ++ written ∧
        (∀ transport, (Client.lone.getStamps transport accented.name 7 [0x6B]).urls =
          ["http://" ++ "h:80" ++ read]) ∧
        IsPath written ∧ WritesTo written accented.name [0x6B] ∧
        IsPath read ∧ Client.LeadsTo read accented.name [0x6B] := by
  have hschema : Schema.ofJson accented.toJson = .ok accented :=
    Schema.ofJson_toJson ⟨by decide +kernel, by decide⟩
  have htopology : Client.lone.topology = some Client.loneTopology := rfl
  have hmember : ⟨7, "h", 80⟩ ∈ Client.loneTopology.members := List.mem_cons_self
  have hwhole : IsWhole accented.name := ⟨by decide, by decide, by decide⟩
  obtain ⟨hurls, hcells⟩ := getStamps_asks_iff htopology hmember hschema [0x6B]
  refine ⟨hschema, fun h => absurd (hurls.1 h) (by decide), hcells hwhole (by decide)⟩

/-- A store whose name has an escape in it already. -/
def escaped : Schema := ⟨"a%41", 1, Schema.consistentRouting⟩

/-- What is written for this store goes to another one, and the client asks elsewhere. -/
theorem cellUrl_misleads :
    Schema.ofJson escaped.toJson = .ok escaped ∧
      (∀ transport, (Client.lone.getStamps transport escaped.name 7 [0x6B]).urls ≠
        [cellUrl ⟨7, "h", 80⟩ escaped.name [0x6B] ++ "/versions"]) ∧
      cellUrl ⟨7, "h", 80⟩ escaped.name [0x6B] = "http://h:80/admin/stores/a%41/keys/6b" ∧
      WritesTo "/admin/stores/a%41/keys/6b" "aA" [0x6B] := by
  have hschema : Schema.ofJson escaped.toJson = .ok escaped :=
    Schema.ofJson_toJson ⟨by decide +kernel, by decide⟩
  have htopology : Client.lone.topology = some Client.loneTopology := rfl
  have hmember : ⟨7, "h", 80⟩ ∈ Client.loneTopology.members := List.mem_cons_self
  refine ⟨hschema, fun transport => ?_, by decide +kernel, ?_⟩
  · rw [Client.urls_getStamps htopology hmember]
    decide +kernel
  · exact writesTo_of_route
      (show Percent.unquote? "/admin/stores/a%41/keys/6b" = some "/admin/stores/aA/keys/6b" by
        decide +kernel) (by decide +kernel)

end Workload

end ReplicaCensus
