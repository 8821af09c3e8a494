import OpenLock.Properties.AtMostOnce
import OpenLock.Properties.Authorization
import OpenLock.Properties.Interlock
import OpenLock.Properties.Rejection
import OpenLock.Properties.Uses
import OpenLock.Device.Scripted
import OpenLock.Properties.Snapshots
import OpenLock.Properties.Poison
import OpenLock.Effects.Traced
import OpenLock.Properties.Drives
import OpenLock.Properties.Ownership
import OpenLock.Properties.Paging
import OpenLock.Properties.Hazards
import OpenLock.Properties.Policy
import OpenLock.Properties.Clock
import OpenLock.Properties.Commissioning
import OpenLock.Properties.Confirmation
import OpenLock.Properties.Firmware
import OpenLock.Properties.Codec
import OpenLock.Properties.Signatures
import OpenLock.Properties.Trust
import OpenLock.Properties.Sessions
import OpenLock.Properties.Handshake
import OpenLock.Properties.Delivery
import OpenLock.Properties.Version
import OpenLock.Properties.Ble
import OpenLock.Properties.Fragments
import OpenLock.Properties.Sizes
import OpenLock.Properties.IsoDep
import OpenLock.Properties.Ndef
import OpenLock.Properties.Setup
import OpenLock.Properties.Legacy
import OpenLock.Properties.Kotlin
import OpenLock.Properties.Native
import OpenLock.Properties.Capacity
import OpenLock.Properties.Migration
import OpenLock.Properties.Records
import OpenLock.Properties.Upkeep
import OpenLock.Properties.Issuing
