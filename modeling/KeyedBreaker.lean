import KeyedBreaker.Log.Pipeline
import KeyedBreaker.Proofs.Breaker.Basic
import KeyedBreaker.Proofs.Breaker.Break
import KeyedBreaker.Proofs.Breaker.Foreign
import KeyedBreaker.Proofs.Breaker.Outcome
import KeyedBreaker.Proofs.Breaker.Overtaken
import KeyedBreaker.Proofs.Breaker.Phantom
import KeyedBreaker.Proofs.Breaker.Recovery
import KeyedBreaker.Proofs.Breaker.Sound
import KeyedBreaker.Proofs.Breaker.Waiting
import KeyedBreaker.Proofs.Breaker.Workable
import KeyedBreaker.Proofs.Log.Fields
import KeyedBreaker.Proofs.Record.Share
import KeyedBreaker.Proofs.Retry.Run
import KeyedBreaker.Proofs.Schedule.Aborted
import KeyedBreaker.Proofs.Schedule.Accounts
import KeyedBreaker.Proofs.Schedule.Announced
import KeyedBreaker.Proofs.Schedule.Attempts
import KeyedBreaker.Proofs.Schedule.Audience
import KeyedBreaker.Proofs.Schedule.Blame
import KeyedBreaker.Proofs.Schedule.FirstCome
import KeyedBreaker.Proofs.Schedule.Independent
import KeyedBreaker.Proofs.Schedule.Isolation
import KeyedBreaker.Proofs.Schedule.Mirror
import KeyedBreaker.Proofs.Schedule.NoLostUpdate
import KeyedBreaker.Proofs.Schedule.Onward
import KeyedBreaker.Proofs.Schedule.Serial
import KeyedBreaker.Proofs.Settings.Agreement
import KeyedBreaker.Proofs.Store.Codec
import KeyedBreaker.Proofs.Store.Register
import KeyedBreaker.Proofs.Throng.Break
import KeyedBreaker.Proofs.Throng.Turn
import KeyedBreaker.Retry.Run
import KeyedBreaker.Schedule.Run
import KeyedBreaker.Settings
