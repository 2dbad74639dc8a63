import KeyedBreaker.Proofs.Store.Access

namespace KeyedBreaker.Act

open Store

variable {s : Scene} {keyPrefix key : String} {client : Client} {r : Record} {x : Option Record}

/-- A write gives a client one text under the name of the key. Whatever the counters, the version, the
instants and the statuses of the record are, the text decodes to the record under the next version, as
it stands and from its octets, and so does every later read of the key. -/
theorem put_decodes (hs : s.store = .shared keyPrefix client) (hq : s.Quiet)
    (hx : s.store.lookup key = .ok x) (hv : r.version = Record.versionOf x) :
    ∃ text s', (put key r).play s = (.ok { r with version := r.version + 1 }, s') ∧
      s'.store = .shared keyPrefix (client.write (keyPrefix ++ key) (some (.text text))) ∧
      Content.decode? (.text text) = some { r with version := r.version + 1 } ∧
      Content.decode? (.bytes text.toUTF8) = some { r with version := r.version + 1 } ∧
      s'.store.lookup key = .ok (some { r with version := r.version + 1 }) := by
  refine ⟨r.next.encode, _, play_put hq hx hv, ?_, ?_, ?_, ?_⟩
  · rw [Scene.seeing_store, Scene.keeping_store, hs, kept]
  · exact Content.decode?_text_encode r.next
  · exact Content.decode?_encoded_encode r.next
  · exact lookup_kept s.store r.next

def strangeRecord : Record where
  status := .halfOpen
  failureCount := -10 ^ 40
  totalCount := 2 ^ 70
  successCount := -1
  closeAt := some ⟨1000001, none, by decide⟩
  resetAt := some ⟨2 * 86400 * 10 ^ 6 + 7, some ⟨-1439, by decide⟩, by decide⟩
  previousStatus := some .isolated
  version := -5

def strangeClient : Client :=
  ({ answersBytes := true } : Client).write ("p:" ++ "k") (some (.text (Record.encode { version := -5 })))

theorem put_decodes_strangeRecord :
    ∃ (text : String) (s' : Scene),
      (put "k" strangeRecord).play { now := ⟨0, none, by decide⟩, store := .shared "p:" strangeClient } =
        (.ok { strangeRecord with version := -4 }, s') ∧
      s'.store = .shared "p:" (strangeClient.write ("p:" ++ "k") (some (.text text))) ∧
      Content.decode? (.bytes text.toUTF8) = some { strangeRecord with version := -4 } := by
  have hx : (Store.shared "p:" strangeClient).lookup "k" = .ok (some { version := -5 }) :=
    lookup_kept (.shared "p:" { answersBytes := true }) { version := -5 }
  obtain ⟨text, s', hp, hs, -, hbytes, -⟩ :=
    put_decodes (s := { now := ⟨0, none, by decide⟩, store := .shared "p:" strangeClient })
      (r := strangeRecord) rfl (fun _ => rfl) hx rfl
  exact ⟨text, s', hp, hs, hbytes⟩

end KeyedBreaker.Act
