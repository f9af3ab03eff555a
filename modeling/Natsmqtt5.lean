import Natsmqtt5.Inbound.ExactlyOnce
import Natsmqtt5.Store.FenceProof
import Natsmqtt5.Resume.Present
import Natsmqtt5.Outbound.ReleaseOrder
import Natsmqtt5.Outbound.Acknowledged
import Natsmqtt5.Retain.View
import Natsmqtt5.Will.NeverLost
import Natsmqtt5.Will.Ownership
import Natsmqtt5.Away.Stranded
import Natsmqtt5.CatchUp.Order
import Natsmqtt5.CatchUp.Once
import Natsmqtt5.Cursor.Rewind
import Natsmqtt5.Cursor.Complete
import Natsmqtt5.Handshake.Principal
import Natsmqtt5.Shared.Joined
import Natsmqtt5.Checkpoint.Skip
import Natsmqtt5.Checkpoint.Wire
import Natsmqtt5.Outbound.Ended
import Natsmqtt5.Outbound.Owed
import Natsmqtt5.Restore.Order
import Natsmqtt5.Alias.Balance
import Natsmqtt5.Cursor.Owner
import Natsmqtt5.Restore.Expiry
import Natsmqtt5.Topic.QueueGroup
import Natsmqtt5.Topic.ReplayFilters
import Natsmqtt5.Wire.Reused
import Natsmqtt5.Subscribe.Stored
import Natsmqtt5.Spill.Sizer
import Natsmqtt5.Wire.Lengths
import Natsmqtt5.Cursor.Holes
import Natsmqtt5.Scram.Exchange
