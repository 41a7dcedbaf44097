import Mathlib
import ReplicaCensus.Proofs.Client.Reading
import ReplicaCensus.Proofs.Cluster.Dumping
import ReplicaCensus.Proofs.Storage.History
/-!
# The URL of a key's versions

A client puts the name of a store, whatever characters it has, into one segment of a path, and a
node gets the name back out of it. So the path stands for one key of one store and for no other.
-/

namespace ReplicaCensus

namespace Client

/-! ## 1. The segments of the path -/

theorem quoted_not_mem (store : String) {c : Char} (hc : Percent.isQuoted c = false) :
    c ∉ (Percent.quote store).toList := by
  intro hmem
  rw [Percent.quote, String.toList_ofList] at hmem
  rw [Percent.isQuoted_of_mem hmem] at hc
  cases hc

theorem toList_versionsPath_eq (store : String) (key : Bytes) :
    (versionsPath store key).toList =
      versionsChars (Percent.quote store) (Hex.encodeChars key) := by
  have hstore : (Percent.quote store).toList = Percent.quoteChars store.toList :=
    String.toList_ofList
  rw [toList_versionsPath, versionsChars, hstore]
  rfl

theorem names?_versionsPath (store : String) (key : Bytes) :
    Route.names? (versionsPath store key).toList =
      some ["admin", "stores", Percent.quote store, "keys", Hex.encode key, "versions"] := by
  rw [toList_versionsPath_eq]
  exact names?_versionsChars (quoted_not_mem store (by decide)) (slash_not_mem_encodeChars key)

theorem versionsPath_injective {store store' : String} {key key' : Bytes}
    (h : versionsPath store' key' = versionsPath store key) : store' = store ∧ key' = key := by
  have hnames := names?_versionsPath store' key'
  rw [h, names?_versionsPath, Option.some_inj] at hnames
  simp only [List.cons.injEq, true_and, and_true] at hnames
  obtain ⟨hstore, hkey⟩ := hnames
  -- a key is read back from its hexadecimal text
  have hbytes := Hex.decodeSpaced?_encodeChars key'
  rw [← String.ofList_injective hkey, Hex.decodeSpaced?_encodeChars] at hbytes
  exact ⟨(Percent.quote_injective hstore).symm, (Option.some.inj hbytes).symm⟩

/-! ## 2. The node that is asked -/

/-- A path leads to the versions of one key in one store: with its percent signs resolved it is
routed there, and every node that has the store answers with the stamps it stores for the key. -/
def LeadsTo (path store : String) (key : Bytes) : Prop :=
  ∃ request, Percent.unquote? path = some request ∧
    Route.ofPath? request = some (.versions store (Hex.encode key)) ∧
    ∀ service : Service, service.storage.hasStore store = true →
      ∃ stamps, service.storage.stamps store key = .ok stamps ∧
        ∀ body now, service.handle ⟨"GET", request, body, now⟩ =
          (.success [("versions", .arr (stamps.map Stamp.toJson))], service)

theorem exists_stamps {storage : Storage} {store : String} (h : storage.hasStore store = true)
    (key : Bytes) : ∃ stamps, storage.stamps store key = .ok stamps := by
  obtain ⟨keys, hkeys⟩ := Storage.hasStore_iff.1 h
  rw [Storage.stamps, Storage.versions, hkeys]
  exact ⟨_, rfl⟩

theorem leadsTo_versionsPath {store : String} (hname : Schema.IsName store) {key : Bytes}
    (hkey : key ≠ []) : LeadsTo (versionsPath store key) store key := by
  have hrouted := ofPath?_plainPath hname.noSlash hname.ne hkey
  refine ⟨_, unquote?_versionsPath store key, hrouted, fun service hstore => ?_⟩
  obtain ⟨stamps, hstamps⟩ := exists_stamps hstore key
  refine ⟨stamps, hstamps, fun body now => ?_⟩
  rw [Service.handle, hrouted]
  show (service.versions store (Hex.encode key), service) = _
  -- the node reads the key back from its hexadecimal text
  rw [Service.versions, Hex.encode, String.toList_ofList, Hex.decodeSpaced?_encodeChars]
  dsimp only
  rw [hstamps]

/-! ## 3. What is asked for -/

theorem urls_getStamps {client : Client} {t : Topology} (ht : client.topology = some t)
    {m : Member} (hm : m ∈ t.members) (transport : Transport) (store : String) (key : Bytes) :
    (client.getStamps transport store m.id key).urls =
      ["http://" ++ m.address ++ versionsPath store key] := by
  rw [getStamps, versionsUrl_of_mem ht hm]
  dsimp only
  split <;> rfl

/-- A client asks for the versions of a key at the address of the node, under a path of six segments
in which the name of the store is escaped. It leads to this key in this store, and no other store or
key has the same path. -/
theorem getStamps_asks {client : Client} {t : Topology} (ht : client.topology = some t) {m : Member}
    (hm : m ∈ t.members) {entry : Json} {schema : Schema}
    (hschema : Schema.ofJson entry = .ok schema) {key : Bytes} (hkey : key ≠ []) :
    ∃ path, (∀ transport, (client.getStamps transport schema.name m.id key).urls =
        ["http://" ++ m.host ++ ":" ++ toString m.port ++ path]) ∧
      (∃ name hex, Route.names? path.toList =
          some ["admin", "stores", name, "keys", hex, "versions"] ∧
        Percent.IsEscaped name.toList ∧
        '/' ∉ name.toList ∧ '?' ∉ name.toList ∧ '#' ∉ name.toList) ∧
      LeadsTo path schema.name key ∧
      ∀ store' key', versionsPath store' key' = path → store' = schema.name ∧ key' = key := by
  have hname := Schema.isValidName_iff.1 (Schema.isSound_of_ofJson hschema).name
  have hescaped : Percent.IsEscaped (Percent.quote schema.name).toList := by
    rw [Percent.quote, String.toList_ofList]
    exact Percent.isEscaped_quoteChars _
  refine ⟨versionsPath schema.name key, fun transport => ?_,
    ⟨_, _, names?_versionsPath schema.name key, hescaped, quoted_not_mem _ (by decide),
      quoted_not_mem _ (by decide), quoted_not_mem _ (by decide)⟩,
    leadsTo_versionsPath hname hkey, fun _ _ => versionsPath_injective⟩
  rw [urls_getStamps ht hm, Member.address]
  simp only [String.append_assoc]

/-- A cluster of one node. -/
def loneTopology : Topology := ⟨[⟨7, "h", 80⟩], 5, by decide, by decide⟩

def lone : Client := ⟨"http://h:80", some loneTopology⟩

/-- A store whose name has an escape in it, and separators of URLs. -/
def peculiar : Schema := ⟨"a%2F b?#é", 1, Schema.consistentRouting⟩

example : versionsPath peculiar.name [0x61, 0xFF] =
    "/admin/stores/a%252F%20b%3F%23%C3%A9/keys/61ff/versions" := by decide +kernel

theorem getStamps_asks_peculiar :
    Schema.ofJson peculiar.toJson = .ok peculiar ∧
      ∃ path, (∀ transport, (lone.getStamps transport peculiar.name 7 [0x61, 0xFF]).urls =
          ["http://" ++ "h" ++ ":" ++ toString 80 ++ path]) ∧
        (∃ name hex, Route.names? path.toList =
            some ["admin", "stores", name, "keys", hex, "versions"] ∧
          Percent.IsEscaped name.toList ∧
          '/' ∉ name.toList ∧ '?' ∉ name.toList ∧ '#' ∉ name.toList) ∧
        LeadsTo path peculiar.name [0x61, 0xFF] ∧
        ∀ store' key', versionsPath store' key' = path →
          store' = peculiar.name ∧ key' = [0x61, 0xFF] := by
  have hschema : Schema.ofJson peculiar.toJson = .ok peculiar :=
    Schema.ofJson_toJson ⟨by decide +kernel, by decide⟩
  have htopology : lone.topology = some loneTopology := rfl
  have hmember : ⟨7, "h", 80⟩ ∈ loneTopology.members := List.mem_cons_self
  have hkey : ([0x61, 0xFF] : Bytes) ≠ [] := by decide
  exact ⟨hschema, getStamps_asks htopology hmember hschema hkey⟩

end Client

end ReplicaCensus
